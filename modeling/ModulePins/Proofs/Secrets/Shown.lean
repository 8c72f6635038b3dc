import Mathlib
import ModulePins.CommandLine.Run
import ModulePins.Proofs.Secrets.Hosting
import ModulePins.Proofs.Workspace.Ancestors

/-!
# Secrets do not show

What the commands show does not depend on secrets. Two stores have the same files, but for secrets in
valid module files. A command that does not write documents ends with the same status on both, shows
the same, fails with the same fault, and reports the same at every level.

Only documents hold defaults at all, and `show` masks them: its text is the plain text of the
document without its secrets.

## Main results

* `Workspace.coupled_render` — masked texts
* `Command.coupled_execute` — all commands that do not write documents
* `CommandLine.run_eq_of_alike` — whole runs
-/

namespace ModulePins

open ModulePins.Task

variable {s s' : FileStore}

/-! ### What is shown of a workspace -/

namespace Workspace

variable {w w' : Workspace}

theorem nearest?_masked (w : Workspace) (address : String) :
    w.masked.nearest? address = (w.nearest? address).map Project.masked := by
  induction address using nearest?.induct w with
  | case1 => rw [nearest?_empty, nearest?_empty, find?_masked]
  | case2 address hne p hp =>
    rw [nearest?_of_ne w hne, nearest?_of_ne w.masked hne, find?_masked, hp]
    rfl
  | case3 address hne hnone ih =>
    rw [nearest?_of_ne w hne, nearest?_of_ne w.masked hne, find?_masked, hnone]
    exact ih

theorem parentOf_masked (w : Workspace) (p : Project) :
    w.masked.parentOf p.masked = (w.parentOf p).map Project.masked := by
  have hroot : p.masked.isRoot = p.isRoot := rfl
  rw [parentOf, parentOf, hroot]
  split
  · rfl
  · exact w.nearest?_masked _

theorem moduleRow_masked (w : Workspace) (p : Project) :
    Command.moduleRow w.masked p.masked = Command.moduleRow w p := by
  rw [Command.moduleRow, Command.moduleRow, parentOf_masked, Option.map_map]
  rfl

/-- The rows of workspaces that are alike. -/
theorem Alike.rows (h : Alike w w') :
    w'.projects.map (Command.moduleRow w') = w.projects.map (Command.moduleRow w) := by
  have hmasked (w : Workspace) : w.projects.map (Command.moduleRow w) =
      w.masked.projects.map (Command.moduleRow w.masked) := by
    rw [masked, List.map_map]
    exact List.map_congr_left fun p _ => (w.moduleRow_masked p).symm
  rw [hmasked, hmasked w, h]

/-- **Masked texts** are the same. -/
theorem coupled_render (address : String) :
    Coupled (Both Alike (Session.Alike s s')) Eq (render address true) (render address true) := by
  have htext (r : Except Fault Document) :
      r.map (·.text true) = (r.map Document.masked).map (·.text false) := by
    cases r with
    | error f => simp only [Except.map]
    | ok d => exact congrArg Except.ok d.text_masked
  rintro ⟨w, S⟩ ⟨w', _⟩ ⟨hw, hfiles, rfl⟩
  have hrendering : ((w'.rendering address).1.map Document.masked, (w'.rendering address).2) =
      ((w.rendering address).1.map Document.masked, (w.rendering address).2) := by
    rw [← rendering_masked, ← rendering_masked, hw]
  obtain ⟨hdocument, hlog⟩ := Prod.mk.inj hrendering
  rw [exec_render_eq, exec_render_eq, htext, htext, hdocument, hlog]
  exact ⟨SameEnd.refl _, hw, hfiles, rfl⟩

end Workspace

/-! ### Showing -/

namespace Showing

open Workspace

variable {α β : Type} {Q : α → β → Prop} {w w' : Workspace}

theorem coupled_put (i : ConsoleItem) :
    Coupled (Both Eq (Session.Alike s s')) Eq (put i) (put i) :=
  coupled_part.bind fun _ _ h => coupled_setPart (by rw [h])

theorem coupled_write (line : String) :
    Coupled (Both Eq (Session.Alike s s')) Eq (write line) (write line) :=
  coupled_part.bind fun _ _ h => coupled_setPart (by rw [h])

theorem coupled_onWorkspace {t : Hosting α} {t' : Hosting β} (hw : Alike w w')
    (ht : Coupled (Both Alike (Session.Alike s s')) Q t t') :
    Coupled (Both Eq (Session.Alike s s')) (fun r r' => Q r.1 r'.1 ∧ Alike r.2 r'.2)
      (onWorkspace w t) (onWorkspace w' t') := by
  have hthen : Coupled (Both Alike (Session.Alike s s'))
      (fun (r : α × Workspace) (r' : β × Workspace) => Q r.1 r'.1 ∧ Alike r.2 r'.2)
      (do let a ← t; return (a, ← here)) (do let b ← t'; return (b, ← here)) :=
    ht.bind fun a b hab => coupled_here.bind fun v v' hv => coupled_pure ⟨hab, hv⟩
  rintro ⟨screen, S⟩ ⟨_, S'⟩ ⟨rfl, hS⟩
  obtain ⟨hend, hstate⟩ := hthen (w, S) (w', S') ⟨hw, hS⟩
  exact ⟨hend, rfl, hstate.2⟩

theorem coupled_configured (h : s.Alike s') (hs : s.Distinct) (hs' : s'.Distinct) {root : Path}
    (hread : ∀ real, s.realPath root = .ok real →
      s'.readBytes (Settings.overridePath real) = s.readBytes (Settings.overridePath real)) :
    Coupled (Both Eq (Session.Alike s s')) Alike (configured root) (configured root) := by
  rw [configured]
  refine (coupled_create h.sameShape hread).session.bind fun w _ hw => hw ▸ ?_
  have hsame : Alike w w := rfl
  exact (coupled_onWorkspace hsame (coupled_configure h hs hs')).bind fun _ _ hv => coupled_pure hv.2

end Showing

namespace Command

open Showing Workspace

theorem coupled_onDirectory (h : s.SameShape s') (root : Path) {t : Showing Unit}
    (ht : Coupled (Both Eq (Session.Alike s s')) Eq t t) :
    Coupled (Both Eq (Session.Alike s s')) Eq (onDirectory root t) (onDirectory root t) := by
  rw [onDirectory]
  refine (Session.coupled_ask (h.isDir? root)).session.bind fun there _ hthere => hthere ▸ ?_
  split
  · exact ht.bind fun _ _ _ => coupled_pure rfl
  · exact (coupled_put _).bind fun _ _ _ => coupled_pure rfl

/-- A command on a directory ends with status 0 only if it does its work. -/
theorem exec_of_onDirectory {root : Path} {t : Showing Unit} {screen : Screen} {S : Session}
    (h : (exec (onDirectory root t) (screen, S)).1 = .ok 0) :
    exec t (screen, S) = (.ok (), (exec (onDirectory root t) (screen, S)).2) := by
  revert h
  rw [onDirectory, exec_bind, exec_session, Session.exec_ask]
  dsimp only
  rcases S.files.isDir? root with e | (_ | _)
  · rintro ⟨⟩
  · rintro ⟨⟩
  · simp only [Except.mapError_ok, if_true]
    rw [exec_bind]
    rcases exec t (screen, S) with ⟨f | _, st⟩
    · rintro ⟨⟩
    · exact fun _ => rfl

theorem coupled_runDiscover (h : s.Alike s') (hs : s.Distinct) (hs' : s'.Distinct) {root : Path}
    (hread : ∀ real, s.realPath root = .ok real →
      s'.readBytes (Settings.overridePath real) = s.readBytes (Settings.overridePath real)) :
    Coupled (Both Eq (Session.Alike s s')) Eq (runDiscover root) (runDiscover root) := by
  rw [runDiscover]
  refine (Session.coupled_realPath h.sameShape root).session.bind fun _ real hreal => ?_
  obtain ⟨rfl, hreal⟩ := hreal
  refine (Settings.coupled_load h.sameShape (hread _ hreal)).session.bind
    fun settings _ hsettings => hsettings ▸ ?_
  have htree : Coupled (Session.Alike s s') (fun t t' => ∀ r : WalkRules, r.walk t' = r.walk t)
      (Session.ask fun files => .ok (files.tree real))
      (Session.ask fun files => .ok (files.tree real)) := by
    rintro S _ ⟨rfl, rfl⟩
    rw [Session.exec_ask, Session.exec_ask]
    exact ⟨.ok fun r => h.sameShape.walk hs hs' r real, rfl, rfl⟩
  refine htree.session.bind fun t t' hwalk => ?_
  rw [hwalk]
  refine (Session.coupled_report _).session.bind fun _ _ _ => ?_
  refine (coupled_forM _ fun a => coupled_write _).bind fun _ _ _ => ?_
  exact coupled_forM _ fun e => coupled_put _

theorem coupled_runModules (h : s.Alike s') (hs : s.Distinct) (hs' : s'.Distinct) {root : Path}
    (hread : ∀ real, s.realPath root = .ok real →
      s'.readBytes (Settings.overridePath real) = s.readBytes (Settings.overridePath real)) :
    Coupled (Both Eq (Session.Alike s s')) Eq (runModules root) (runModules root) := by
  rw [runModules]
  refine (coupled_configured h hs hs' hread).bind fun w w' hw => ?_
  rw [hw.rows]
  exact coupled_write _

theorem coupled_runShow (h : s.Alike s') (hs : s.Distinct) (hs' : s'.Distinct) (address : String)
    {root : Path} (hread : ∀ real, s.realPath root = .ok real →
      s'.readBytes (Settings.overridePath real) = s.readBytes (Settings.overridePath real)) :
    Coupled (Both Eq (Session.Alike s s')) Eq (runShow address root) (runShow address root) := by
  rw [runShow]
  refine (coupled_configured h hs hs' hread).bind fun w w' hw => ?_
  refine (coupled_onWorkspace hw (coupled_render address)).bind fun r r' hr => ?_
  obtain ⟨text, v⟩ := r
  obtain ⟨text', v'⟩ := r'
  obtain ⟨rfl, -⟩ := hr
  exact coupled_write _

theorem exec_onWorkspace {α : Type} (w : Workspace) (t : Hosting α) (screen : Screen) (S : Session) :
    exec (onWorkspace w t) (screen, S) =
      ((exec t (w, S)).1.map fun a => (a, (exec t (w, S)).2.1),
        (screen, (exec t (w, S)).2.2)) := by
  change ((exec (do let a ← t; return (a, ← here)) (w, S)).1,
    (screen, (exec (do let a ← t; return (a, ← here)) (w, S)).2.2)) = _
  rw [exec_bind]
  rcases exec t (w, S) with ⟨_ | a, v, T⟩ <;> rfl

/-- Setting a workspace up shows nothing. -/
theorem screen_configured (root : Path) (screen : Screen) (S : Session) :
    (exec (configured root) (screen, S)).2.1 = screen := by
  rw [Showing.configured, exec_bind, exec_session]
  rcases exec (create root none false) S with ⟨f | w, S'⟩
  · rfl
  · dsimp only
    rw [exec_bind, exec_onWorkspace]
    rcases exec configure (w, S') with ⟨_ | _, v, T⟩ <;> rfl

/-- `show` writes the plain text of the document without its secrets. -/
theorem exec_runShow {root : Path} {screen : Screen} {w : Workspace} {S T : Session}
    (h : exec (configured root) (screen, S) = (.ok w, (screen, T))) (address : String) :
    exec (runShow address root) (screen, S) =
      match (w.rendering address).1 with
      | .ok d => (.ok (), (screen.write (d.masked.text false),
          { T with log := T.log ++ (w.rendering address).2 }))
      | .error f => (.error f, (screen, { T with log := T.log ++ (w.rendering address).2 })) := by
  rw [runShow, exec_bind_ok h, exec_bind, exec_onWorkspace, exec_render_eq]
  cases (w.rendering address).1 with
  | error f => rfl
  | ok d =>
    dsimp only [Except.map]
    rw [d.text_masked]
    rfl

theorem coupled_runCatalog (mnemonic : Option String) :
    Coupled (Both Eq (Session.Alike s s')) Eq (runCatalog mnemonic) (runCatalog mnemonic) := by
  refine coupled_forM _ fun m => (coupled_ofExcept (SameEnd.refl _)).bind fun p _ hp => hp ▸ ?_
  exact (coupled_put _).bind fun _ _ _ => coupled_put _

/-- Does the command write documents? -/
def writes : Command → Bool
  | generate _ _ => true
  | _ => false

/-- **A command that does not write documents**, on stores that are alike. -/
theorem coupled_execute {c : Command} (hreads : c.writes = false) (h : s.Alike s')
    (hs : s.Distinct) (hs' : s'.Distinct)
    (hsettings : ∀ root real, c.root? = some root → s.realPath root = .ok real →
      s'.readBytes (Settings.overridePath real) = s.readBytes (Settings.overridePath real)) :
    Coupled (Both Eq (Session.Alike s s')) Eq c.execute c.execute := by
  cases c with
  | discover root =>
    exact coupled_onDirectory h.sameShape root
      (coupled_runDiscover h hs hs' fun real => hsettings root real rfl)
  | modules root =>
    exact coupled_onDirectory h.sameShape root
      (coupled_runModules h hs hs' fun real => hsettings root real rfl)
  | catalog mnemonic => exact (coupled_runCatalog mnemonic).bind fun _ _ _ => coupled_pure rfl
  | «show» address root =>
    exact coupled_onDirectory h.sameShape root
      (coupled_runShow h hs hs' address fun real => hsettings root real rfl)
  | generate root force => cases hreads
  | version => exact (coupled_write _).bind fun _ _ _ => coupled_pure rfl

end Command

namespace CommandLine

theorem coupled_guarded {c : Command}
    (h : Coupled (Both Eq (Session.Alike s s')) Eq c.execute c.execute) :
    Coupled (Both Eq (Session.Alike s s')) Eq (guarded c) (guarded c) := by
  refine h.tryCatch fun f => ?_
  split
  · exact (Session.coupled_report _).session.bind fun _ _ _ =>
      (Showing.coupled_put _).bind fun _ _ _ => coupled_pure rfl
  · exact coupled_throw f

/-- A run that ends with status 0 is that of its command. -/
theorem exec_execute_of_guarded {c : Command} {st : Screen × Session}
    (h : (exec (guarded c) st).1 = .ok 0) : exec c.execute st = exec (guarded c) st := by
  revert h
  rw [guarded, exec_tryCatch]
  rcases exec c.execute st with ⟨f | n, st'⟩
  · dsimp only
    split <;> rintro ⟨⟩
  · exact fun _ => rfl

theorem run_of_request {arguments : List String} {verbose : Bool} {c : Command}
    (h : Request.ofArguments arguments = .run verbose c) (S : Session) :
    run arguments S =
      (let ended := exec (guarded c) (Screen.empty, S)
       let text := logText (levelOf verbose) (ended.2.2.log.drop S.log.length)
       match ended.1 with
       | .ok status => (⟨status, ended.2.1, text, none⟩, ended.2.2)
       | .error f => (⟨1, ended.2.1, text, some f⟩, ended.2.2)) := by
  rw [run, h]
  rfl

/-- A run of `show` that succeeds. -/
theorem screen_of_show {arguments : List String} {verbose : Bool} {address : String} {root : Path}
    {S : Session} (hrequest : Request.ofArguments arguments = .run verbose (.show address root))
    (hstatus : (run arguments S).1.status = 0) :
    ∃ w T, ∃ d : Document, exec (Showing.configured root) (Screen.empty, S) = (.ok w, (Screen.empty, T)) ∧
      (exec (Workspace.render address false) (w, T)).1 = .ok (d.text false) ∧
      (run arguments S).1.screen = Screen.empty.write (d.masked.text false) := by
  rw [run_of_request hrequest] at hstatus ⊢
  dsimp only at hstatus ⊢
  have hguarded : (exec (guarded (.show address root)) (Screen.empty, S)).1 = .ok 0 := by
    rcases hended : (exec (guarded (.show address root)) (Screen.empty, S)).1 with f | status
    · rw [hended] at hstatus
      cases hstatus
    · rw [hended] at hstatus
      exact congrArg Except.ok hstatus
  rw [hguarded]
  dsimp only
  have hexecute := exec_execute_of_guarded hguarded
  rw [← hexecute] at hguarded ⊢
  change (exec (Command.onDirectory root (Command.runShow address root)) _).1 = _ at hguarded
  change ∃ w T, ∃ d : Document, _ ∧ _ ∧
    (exec (Command.onDirectory root (Command.runShow address root)) _).2.1 = _
  have hrun := Command.exec_of_onDirectory hguarded
  have hscreen := Command.screen_configured root Screen.empty S
  rcases hset : exec (Showing.configured root) (Screen.empty, S) with ⟨f | w, screen, T⟩
  · rw [Command.runShow, exec_bind_error hset] at hrun
    cases hrun
  · rw [hset] at hscreen
    obtain rfl : screen = Screen.empty := hscreen
    rw [Command.exec_runShow hset] at hrun
    cases hdocument : (w.rendering address).1 with
    | error f =>
      rw [hdocument] at hrun
      cases hrun
    | ok d =>
      rw [hdocument] at hrun
      refine ⟨w, T, d, rfl, ?_, ?_⟩
      · rw [Workspace.exec_render_eq, hdocument]
        rfl
      · rw [← (Prod.mk.inj hrun).2]

/-- A module file whose secret is the character `c`. -/
def sealedText (c : Char) : List Char :=
  ("waterDescriptor:\n  moduleId: m\n  properties:\n  - key: k\n    sensitive: true\n" ++
    "    defaultValue: " ++ c.toString ++ "\n").toList

def sealedTokens (c : Char) : List Yaml.Token :=
  [.blockMappingStart, .key, .scalar "waterDescriptor" true, .value, .blockMappingStart, .key,
    .scalar "moduleId" true, .value, .scalar "m" true, .key, .scalar "properties" true, .value,
    .blockEntry, .blockMappingStart, .key, .scalar "key" true, .value, .scalar "k" true, .key,
    .scalar "sensitive" true, .value, .scalar "true" true, .key, .scalar "defaultValue" true,
    .value, .scalar c.toString true, .blockEnd, .blockEnd, .blockEnd]

def sealedMembers (c : Char) : Schema.Members :=
  [(.str "waterDescriptor", .mapping [(.str "moduleId", .str "m"), (.str "properties",
    .list [.mapping [(.str "key", .str "k"), (.str "sensitive", .bool true),
      (.str "defaultValue", .str c.toString)]])])]

def sealedFile (c : Char) : ModuleFile :=
  ⟨none, none, none,
    some ⟨some "m", none, none, [], [⟨"k", true, true, c.toString, "", "string", ""⟩], [], []⟩⟩

/-- The bytes of the module file. -/
def sealedBytes (c : Char) : ByteArray := (String.ofList (sealedText c)).toUTF8

def sealed (bytes : ByteArray) : FileStore where
  nodes := [(["w"], .directory), (["w", "water.yaml"], .file bytes)]
  current := []

def sealedSession (c : Char) : Session := ⟨sealed (sealedBytes c), [], ⟨.root, []⟩, Stamp.epoch⟩

theorem readable_sealed {c : Char} (hc : c = 'a' ∨ c = 'b') :
    (sealedText c).all Yaml.isReadable = true ∧
      Text.unifyNewlines (sealedText c) = sealedText c := by
  rcases hc with rfl | rfl <;> constructor <;> cbv

theorem tokens_sealed {c : Char} (hc : c = 'a' ∨ c = 'b') :
    Yaml.tokens (sealedText c) = sealedTokens c := by
  rcases hc with rfl | rfl <;> cbv

theorem ofBytes?_sealed {c : Char} (hc : c = 'a' ∨ c = 'b') :
    ModuleFile.ofBytes? (sealedBytes c) = some (sealedFile c) := by
  obtain ⟨hreadable, hunified⟩ := readable_sealed hc
  have hread : Yaml.read (Text.unifyNewlines (sealedText c)) = .ok (.mapping (sealedMembers c)) := by
    rw [hunified, Yaml.read, Yaml.node?, hreadable, tokens_sealed hc]
    rcases hc with rfl | rfl <;> cbv
  have hvalidate : ModuleFile.validate (sealedMembers c) none = .ok (sealedFile c) := by
    rcases hc with rfl | rfl <;> cbv
  exact ModuleFile.ofBytes?_toUTF8 hread rfl hvalidate

theorem node?_sealed (bytes : ByteArray) (l : Location) : (sealed bytes).node? l =
    if l = [] then some .directory else if ["w"] = l then some .directory
    else if ["w", "water.yaml"] = l then some (.file bytes) else none := by
  simp only [FileStore.node?, sealed, List.find?_cons, List.find?_nil]
  grind

theorem alike_sealed {bytes bytes' : ByteArray}
    (h : FileNode.Alike (.file bytes) (.file bytes')) : (sealed bytes).Alike (sealed bytes') := by
  refine ⟨rfl, fun l => ?_⟩
  rw [node?_sealed, node?_sealed]
  split_ifs
  · exact .some (.same _)
  · exact .some (.same _)
  · exact .some h
  · exact .none

theorem distinct_sealed (bytes : ByteArray) : (sealed bytes).Distinct := by
  change [["w"], ["w", "water.yaml"]].Nodup
  decide

theorem settings_sealed (bytes : ByteArray) :
    (sealed bytes).realPath ⟨.root, ["w"]⟩ = .ok ⟨.root, ["w"]⟩ ∧
      (sealed bytes).readBytes (Settings.overridePath ⟨.root, ["w"]⟩) =
        .error ⟨.notFound, "/w/.water/config.yaml"⟩ := by
  constructor <;> cbv

theorem request_sealed : Request.ofArguments ["show", ":", "--root", "/w"] =
    .run false (.show ":" ⟨.root, ["w"]⟩) := by
  cbv

end CommandLine

end ModulePins
