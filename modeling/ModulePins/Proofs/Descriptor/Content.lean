import ModulePins.Descriptor.Document
import ModulePins.Proofs.Json.RoundTrip

/-!
# What a document says

The text of a document is all that decides whether a file is written again, so it has to determine
what the document says, and nothing else may get into it. `Content` is what a document says: it
leaves out what is known of a pin's property besides its value, and all properties of input pins.
`Content.toJson` lays it out with its members in the order in which documents have them.

Reading the text of a document gives back its content laid out. Since the layout loses nothing, two
texts are the same exactly if the contents are. Masking is of no concern here; a masked text hides
what it is meant to hide.

## Main definitions

* `Content`, `Document.content` — what a document says
* `Content.toJson` — its members, in their order

## Main results

* `Document.read_text` — reading a text gives back the content
* `Document.text_eq_iff` — and so the text tells contents apart
-/

namespace ModulePins

open Json

/-- What a document says of a pin's property. -/
structure PropertyContent where
  key : String
  required : Bool
  sensitive : Bool
  defaultValue : String
  deriving DecidableEq, Repr

/-- What a document says of an output pin. -/
structure OutputContent where
  id : String
  required : Bool
  properties : List PropertyContent
  deriving DecidableEq, Repr

/-- What a document says of an input pin. -/
structure InputContent where
  id : String
  required : Bool
  deriving DecidableEq, Repr

/-- What a document says. -/
structure Content where
  schemaVersion : String
  artifactId : String
  moduleId : Option String
  displayName : Option String
  description : Option String
  properties : List Property
  outputs : List OutputContent
  inputs : List InputContent
  deriving DecidableEq, Repr

/-! ### Layout -/

theorem Json.ofOption_injective : Function.Injective Json.ofOption := by
  rintro (_ | s) (_ | t) h <;> cases h <;> rfl

namespace PropertyContent

def ofProperty (p : Property) : PropertyContent := ⟨p.key, p.required, p.sensitive, p.defaultValue⟩

def toJson (p : PropertyContent) : Json :=
  .object [("key", .str p.key), ("required", .bool p.required), ("sensitive", .bool p.sensitive),
    ("defaultValue", .str p.defaultValue)]

theorem toJson_injective : Function.Injective toJson := by
  rintro ⟨k, r, s, d⟩ ⟨k', r', s', d'⟩ h
  simpa [toJson] using h

end PropertyContent

namespace OutputContent

def ofPin (p : Pin) : OutputContent := ⟨p.id, p.required, p.properties.map .ofProperty⟩

def toJson (p : OutputContent) : Json :=
  .object [("id", .str p.id), ("required", .bool p.required),
    ("properties", .array (p.properties.map PropertyContent.toJson))]

theorem toJson_injective : Function.Injective toJson := by
  rintro ⟨i, r, ps⟩ ⟨i', r', ps'⟩ h
  simpa [toJson, PropertyContent.toJson_injective.list_map.eq_iff] using h

end OutputContent

namespace InputContent

def ofPin (p : Pin) : InputContent := ⟨p.id, p.required⟩

def toJson (p : InputContent) : Json :=
  .object [("id", .str p.id), ("required", .bool p.required)]

theorem toJson_injective : Function.Injective toJson := by
  rintro ⟨i, r⟩ ⟨i', r'⟩ h
  simpa [toJson] using h

end InputContent

/-- A property of the module; all of it is said. -/
def Property.toJson (p : Property) : Json :=
  .object [("key", .str p.key), ("type", .str p.type), ("envVar", .str p.envVar),
    ("required", .bool p.required), ("sensitive", .bool p.sensitive),
    ("defaultValue", .str p.defaultValue), ("description", .str p.description)]

theorem Property.toJson_injective : Function.Injective Property.toJson := by
  rintro ⟨k, r, s, d, t, y, e⟩ ⟨k', r', s', d', t', y', e'⟩ h
  simp only [Property.toJson, Json.object.injEq, List.cons.injEq, Prod.mk.injEq, Json.str.injEq,
    Json.bool.injEq, true_and, and_true] at h
  obtain ⟨rfl, rfl, rfl, rfl, rfl, rfl, rfl⟩ := h
  rfl

namespace Content

/-- The content with its members in the order of documents. -/
def toJson (c : Content) : Json :=
  .object
    [("schemaVersion", .str c.schemaVersion), ("artifactId", .str c.artifactId),
     ("moduleId", .ofOption c.moduleId), ("displayName", .ofOption c.displayName),
     ("description", .ofOption c.description),
     ("properties", .array (c.properties.map Property.toJson)),
     ("pins", .object
       [("output", .array (c.outputs.map OutputContent.toJson)),
        ("input", .array (c.inputs.map InputContent.toJson))])]

theorem toJson_injective : Function.Injective toJson := by
  rintro ⟨v, a, m, n, d, ps, os, is⟩ ⟨v', a', m', n', d', ps', os', is'⟩ h
  simp only [toJson, Json.object.injEq, List.cons.injEq, Prod.mk.injEq, Json.str.injEq,
    Json.array.injEq, Json.ofOption_injective.eq_iff, Property.toJson_injective.list_map.eq_iff,
    OutputContent.toJson_injective.list_map.eq_iff, InputContent.toJson_injective.list_map.eq_iff,
    true_and, and_true] at h
  obtain ⟨rfl, rfl, rfl, rfl, rfl, rfl, rfl, rfl⟩ := h
  rfl

end Content

/-! ### Plain values -/

namespace Json

theorem plain_ofOption (s : Option String) : Plain (ofOption s) := by
  cases s <;> exact trivial

theorem allPlain_map {α : Type} {f : α → Json} (h : ∀ a, Plain (f a)) (as : List α) :
    AllPlain (as.map f) := by
  induction as with
  | nil => exact trivial
  | cons a as ih => exact ⟨h a, ih⟩

end Json

theorem PropertyContent.plain_toJson (p : PropertyContent) : Plain p.toJson :=
  ⟨by simp, trivial, trivial, trivial, trivial, trivial⟩

theorem OutputContent.plain_toJson (p : OutputContent) : Plain p.toJson :=
  ⟨by simp, trivial, trivial, allPlain_map PropertyContent.plain_toJson _, trivial⟩

theorem InputContent.plain_toJson (p : InputContent) : Plain p.toJson :=
  ⟨by simp, trivial, trivial, trivial⟩

theorem Property.plain_toJson (p : Property) : Plain p.toJson :=
  ⟨by simp, trivial, trivial, trivial, trivial, trivial, trivial, trivial, trivial⟩

theorem Content.plain_toJson (c : Content) : Plain c.toJson := by
  have hpins : MembersPlain [("output", .array (c.outputs.map OutputContent.toJson)),
      ("input", .array (c.inputs.map InputContent.toJson))] :=
    ⟨allPlain_map OutputContent.plain_toJson _, allPlain_map InputContent.plain_toJson _, trivial⟩
  exact ⟨by simp, trivial, trivial, plain_ofOption _, plain_ofOption _, plain_ofOption _,
    allPlain_map Property.plain_toJson _, ⟨by simp, hpins⟩, trivial⟩

/-! ### Documents -/

namespace Document

/-- What a document says. -/
def content (d : Document) : Content where
  schemaVersion := d.schemaVersion
  artifactId := d.artifactId
  moduleId := d.moduleId
  displayName := d.displayName
  description := d.description
  properties := d.properties
  outputs := d.outputs.map OutputContent.ofPin
  inputs := d.inputs.map InputContent.ofPin

theorem output_eq (p : Pin) : output false p = (OutputContent.ofPin p).toJson := by
  rw [OutputContent.toJson, OutputContent.ofPin, List.map_map]
  rfl

/-- A document without masks is its content, laid out. -/
theorem toJson_eq (d : Document) : d.toJson false = d.content.toJson := by
  have houtputs : d.outputs.map (output false) = d.content.outputs.map OutputContent.toJson := by
    rw [content, List.map_map]
    exact List.map_congr_left fun p _ => output_eq p
  have hinputs : d.inputs.map input = d.content.inputs.map InputContent.toJson := by
    rw [content, List.map_map]
    rfl
  rw [toJson, houtputs, hinputs]
  rfl

theorem read_text (d : Document) : Json.read (d.text false).toList = .ok d.content.toJson := by
  rw [text, toText, String.toList_ofList, toJson_eq]
  exact read_print d.content.plain_toJson

theorem text_eq_iff {d d' : Document} : d.text false = d'.text false ↔ d.content = d'.content := by
  constructor
  · intro h
    have hread := d.read_text
    rw [h, d'.read_text] at hread
    exact (Content.toJson_injective (Except.ok.inj hread)).symm
  · intro h
    rw [text, text, toJson_eq, toJson_eq, h]

/-- **The text of a document is a fingerprint of its content.** Reading the text as JSON gives back
the content with its members in their order, and two texts are the same exactly if the contents
are. -/
theorem text_fingerprint (d d' : Document) :
    Json.read (d.text false).toList = .ok d.content.toJson ∧
      (d.text false = d'.text false ↔ d.content = d'.content) :=
  ⟨d.read_text, text_eq_iff⟩

end Document

end ModulePins
