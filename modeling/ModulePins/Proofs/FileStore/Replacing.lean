import ModulePins.Proofs.FileStore.Directories

/-!
# Moving a file over a link

A file that is moved takes the place of the link that the target ends in, and then the link is gone.
What the target leads to afterwards can be told if its directory is there without the link.
`Detached` says so; a path that ends in no link is detached anyway.

## Main definitions

* `FileStore.Detached` — the directory of a path is there without the link that the path ends in

## Main results

* `FileStore.replaced_detached` — moving a regular file over a path beside it
-/

namespace ModulePins

namespace FileStore

variable {s s' : FileStore} {p q : Path} {l : Location} {b : ByteArray}

/-- If the path ends in a link, the directory that the link lies in is reached without it. -/
def Detached (s : FileStore) (p : Path) : Prop :=
  ∀ d t, s.realPath p.parent = .ok ⟨.root, d⟩ → s.node? (d ++ [p.name]) = some (.link t) →
    (s.drop (d ++ [p.name])).locate p.parent true = .ok d ∧ s.node? d = some .directory

/-- Taking the same location away keeps stores with the same links alike. -/
theorem SameLinks.without (h : SameLinks s s') (l : Location) : SameLinks (s.drop l) (s'.drop l) := by
  have hnode (n : FileNode) {l' : Location} (himp : s.node? l' = some n → s'.node? l' = some n) :
      (s.drop l).node? l' = some n → (s'.drop l).node? l' = some n := by
    rcases eq_or_ne l' [] with rfl | hne
    · simp
    · rw [node?_drop s l hne, node?_drop s' l hne]
      split
      · exact id
      · exact himp
  have hback (t : String) {l' : Location} :
      (s'.drop l).node? l' = some (.link t) → (s.drop l).node? l' = some (.link t) := by
    rcases eq_or_ne l' [] with rfl | hne
    · simp
    · rw [node?_drop s l hne, node?_drop s' l hne]
      split
      · exact id
      · exact h.links l' t
  exact ⟨⟨h.current, fun l' => hnode .directory (h.directories l'), fun l' t => hback t⟩,
    fun l' t => hnode (.link t) (h.kept l' t)⟩

theorem SameLinks.detached (h : SameLinks s s') (hp : Detached s p) : Detached s' p := by
  intro d t hd ht
  obtain ⟨hl, hdir⟩ := hp d t (h.realPath hd) (h.links _ _ ht)
  exact ⟨locate_mono (h.without _) hl, h.directories d hdir⟩

/-- Without a link a real location is real all the same. -/
theorem IsReal.without (h : IsReal s l) (e : Location) : IsReal (s.drop e) l := by
  exact ⟨h.proper, h.free.mono fun _ _ => node?_of_drop⟩

/-- Where a path lies that ends in a link. -/
theorem locate_of_link {d e : Location} {t : String} (hhome : Homed s) (hsolid : Solid s s.current)
    (hparts : q.parts ≠ []) (hup : q.name ≠ "..") (hd : s.realPath q.parent = .ok ⟨.root, d⟩)
    (ht : s.node? (d ++ [q.name]) = some (.link t)) (he : s.locate q false = .ok e) :
    e = d ++ [q.name] ∧ s.locate q.parent true = .ok d ∧ ¬ nameLimit < q.name.utf8ByteSize := by
  obtain ⟨above, habove, hdir⟩ := directory_above hsolid hparts hup he
  rw [(realPath_of_locate hhome habove).1] at hd
  cases hd
  obtain ⟨left, hleft⟩ := locateFrom_append (locate_eq_ok_iff_from.mp habove) hdir.directory
  have hlast := hleft false [q.name] (by simp)
  rw [← parts_of_name hparts] at hlast
  have hplace := hlast.symm.trans (locate_eq_ok_iff_from.mp he)
  have hshort : ¬ nameLimit < q.name.utf8ByteSize := by
    intro hlong
    rw [locateFrom, if_neg hup, if_pos hlong] at hplace
    cases hplace
  rw [locateFrom_link hup hshort ht, if_pos (by simp)] at hplace
  exact ⟨(Except.ok.inj hplace).symm, habove, hshort⟩

section Link

variable {e : Location} {t : String}

theorem node?_drop_put {x : Location} (n : FileNode) (hx : x ≠ []) : ((s.drop l).put e n).node? x =
    if x = e then some n else if x = l then none else s.node? x := by
  rw [node?_put _ _ _ hx, node?_drop _ _ hx]

variable (hl : s.node? l = some (.file b)) (he : s.node? e = some (.link t))
include hl he

theorem directory_replace_link {x : Location} (hx : s.node? x = some .directory) :
    ((s.drop l).put e (.file b)).node? x = some .directory := by
  rcases eq_or_ne x [] with rfl | hne
  · exact node?_nil _
  · rw [node?_drop_put _ hne, if_neg, if_neg]
    · exact hx
    · rintro rfl
      rw [hl] at hx
      cases hx
    · rintro rfl
      rw [he] at hx
      cases hx

/-- When a file has taken the place of a link, the other links are there as before. -/
theorem sameLinks_replace_link : SameLinks (s.drop e) ((s.drop l).put e (.file b)) := by
  refine ⟨⟨by simp, fun x hx => ?_, fun x u hx => ?_⟩, fun x u hx => ?_⟩ <;>
    rcases eq_or_ne x [] with rfl | hne
  · exact node?_nil _
  · rw [node?_drop _ _ hne] at hx
    split at hx
    · cases hx
    · exact directory_replace_link hl he hx
  · simp at hx
  · rw [node?_drop_put _ hne] at hx
    split at hx
    · cases hx
    · rename_i hother
      rw [node?_drop _ _ hne, if_neg hother]
      split at hx
      · cases hx
      · exact hx
  · simp at hx
  · rw [node?_drop _ _ hne] at hx
    split at hx
    · cases hx
    · rename_i hother
      rw [node?_drop_put _ hne, if_neg hother, if_neg]
      · exact hx
      · rintro rfl
        rw [hl] at hx
        cases hx

end Link

/-- Moving a regular file over a path that ends in a link puts it where the link is. -/
theorem replace_link {d : Location} {t : String} (hhome : Homed s) (hsolid : Solid s s.current)
    (hp : ¬ EndsInLink s p) (hup : p.name ≠ "..") (hd : s.realPath q.parent = .ok ⟨.root, d⟩)
    (ht : s.node? (d ++ [q.name]) = some (.link t)) (hfile : s.readBytes p = .ok b)
    (hw : s.replace p q = .ok s') :
    (q.parts ≠ [] ∧ q.name ≠ ".." ∧ ¬ nameLimit < q.name.utf8ByteSize) ∧
      ∃ l, s.node? l = some (.file b) ∧ s' = (s.drop l).put (d ++ [q.name]) (.file b) := by
  obtain ⟨l, e, n, hl, hn, he, hqup, hplace, hs'⟩ := replace_eq_ok_locate hw
  -- what is moved is the file
  have hnode : s.node? l = some (.file b) := by
    obtain ⟨m, hm, hb⟩ := readBytes_eq_ok_iff_locate.mp hfile
    rw [locate_true_of_false hhome hp hup hl] at hm
    cases hm
    exact hb
  rw [hnode] at hn
  cases hn
  -- it goes to the place of the link
  have hparts : q.parts ≠ [] := by
    intro hnil
    rw [locate_eq_ok_iff_from, hnil, locateFrom] at he
    cases he
    exact hplace (hsolid.start q).directory
  obtain ⟨rfl, -, hshort⟩ := locate_of_link hhome hsolid hparts hqup hd ht he
  have hne : l ≠ d ++ [q.name] := by
    rintro rfl
    rw [hnode] at ht
    cases ht
  rw [if_neg hne] at hs'
  exact ⟨⟨hparts, hqup, hshort⟩, l, hnode, hs'⟩

/-- **Moving a regular file** over a path beside it. The target leads to the file then, and a link
that it ended in is gone. -/
theorem replaced_detached (hhome : Homed s) (hsolid : Solid s s.current) (hp : ¬ EndsInLink s p)
    (hq : Detached s q) (hup : p.name ≠ "..") (hbeside : p.parent = q.parent)
    (hfile : s.readBytes p = .ok b) (hw : s.replace p q = .ok s') :
    (Homed s' ∧ Solid s' s'.current ∧ ¬ EndsInLink s' p ∧ Detached s' q) ∧
      ∃ l, s'.locate q true = .ok l ∧ s'.node? l = some (.file b) := by
  by_cases hlink : EndsInLink s q
  case neg =>
    obtain ⟨htouches, hthere⟩ := replaced_touches hhome hp hlink hup hfile hw
    have hlinks := htouches.toSameLinks
    exact ⟨⟨hhome.mono hlinks, hlinks.current ▸ hsolid.mono hlinks.toKeeps,
      mt hlinks.endsInLink hp, hlinks.detached hq⟩, hthere⟩
  obtain ⟨d, t, hd, ht⟩ := hlink
  obtain ⟨hwithout, hdir⟩ := hq d t hd ht
  obtain ⟨⟨hparts, hqup, hshort⟩, l, hnode, rfl⟩ := replace_link hhome hsolid hp hup hd ht hfile hw
  have hsame := sameLinks_replace_link hnode ht
  have hhome' : Homed ((s.drop l).put (d ++ [q.name]) (.file b)) :=
    Homed.mono hsame (hhome.without _)
  have hthere : ((s.drop l).put (d ++ [q.name]) (.file b)).node? (d ++ [q.name]) =
      some (.file b) := by
    rw [node?_drop_put _ (by simp), if_pos rfl]
  have hparent := locate_mono hsame hwithout
  have hreal := (realPath_of_locate hhome' hparent).1
  have hfound : ((s.drop l).put (d ++ [q.name]) (.file b)).locate q true = .ok (d ++ [q.name]) :=
    locate_below hparts hqup hshort hparent (directory_replace_link hnode ht hdir) fun u hu => by
      rw [hthere] at hu
      cases hu
  have hsolid' (x : Location) (hx : x <+: ((s.drop l).put (d ++ [q.name]) (.file b)).current) :=
    directory_replace_link hnode ht (hsolid x (by simpa using hx))
  refine ⟨⟨hhome', hsolid', ?_, ?_⟩, _, hfound, hthere⟩
  -- a link beside the target was there before
  · rintro ⟨d', u, hd', hu⟩
    rw [hbeside, hreal] at hd'
    cases hd'
    exact hp ⟨d, u, by rw [hbeside, hd], node?_of_drop (hsame.links _ u hu)⟩
  -- and where the target lies is no link any more
  · intro d' u hd' hu
    rw [hreal] at hd'
    cases hd'
    rw [hthere] at hu
    cases hu

end FileStore

end ModulePins
