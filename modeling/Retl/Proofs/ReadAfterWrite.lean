import Mathlib
import Retl.FileStore
/-!
# Reading a file back after writing it

A path is writable in the store when writing any bytes there keeps them as a file of the
store (`FileStore.WritesTo`): the path runs through directories of the store to a file of it,
or to a name that is missing from the last of them. Reading such a path after a write gives
the bytes written (`read_store_of_writesTo`).

Storing a file adds no file on the way to it and removes no directory, so the directories a
lookup walks through are still directories, and the last component now names the stored
file (`walk_store`, `lookup_store_self`).
-/

namespace Retl

namespace FileStore

/-- Writing at `path` keeps the bytes written, whatever they are, as the file `q` of the
store. -/
def WritesTo (st : FileStore) (path q : String) : Prop :=
  ∀ bytes, st.write path bytes = .ok (st.store q bytes)

variable {st : FileStore} {q : String} {bytes : List UInt8}

theorem isFile_store (p : String) :
    (st.store q bytes).isFile p = true ↔ st.isFile p = true ∨ p = q := by
  unfold store isFile
  split
  next hq =>
    -- the file was there: its entry is replaced in place
    simp only [List.any_map, Function.comp_def, List.any_eq_true, beq_iff_eq]
    constructor
    · rintro ⟨f, hf, hp⟩
      by_cases hfq : f.1 = q
      · simp only [hfq, if_true] at hp
        exact .inr hp.symm
      · exact .inl ⟨f, hf, by simpa [hfq] using hp⟩
    · rintro (⟨f, hf, rfl⟩ | rfl)
      · refine ⟨f, hf, ?_⟩
        by_cases hfq : f.1 = q <;> simp [hfq]
      · obtain ⟨f, hf, hfq⟩ := List.any_eq_true.mp hq
        exact ⟨f, hf, by simp [beq_iff_eq.mp hfq]⟩
  next =>
    simp only [List.any_append, Bool.or_eq_true, List.any_cons, List.any_nil, Bool.or_false,
      beq_iff_eq]
    exact or_congr_right eq_comm

/-- Storing a file keeps every directory: the paths of the files stay, and one may be added. -/
theorem isDir_store {p : String} (h : st.isDir p = true) : (st.store q bytes).isDir p = true := by
  unfold isDir at h ⊢
  rcases Bool.or_eq_true_iff.mp h with hempty | hunder
  · simp [hempty]
  · obtain ⟨f, hf, hpre⟩ := List.any_eq_true.mp hunder
    refine Bool.or_eq_true_iff.mpr (.inr (List.any_eq_true.mpr ?_))
    unfold store
    split
    · refine ⟨if f.1 == q then (q, bytes) else f, List.mem_map_of_mem hf, ?_⟩
      by_cases hfq : f.1 = q <;> simp_all
    · exact ⟨f, List.mem_append_left _ hf, hpre⟩

theorem find?_store : (st.store q bytes).files.find? (fun f => f.1 == q) = some (q, bytes) := by
  unfold store
  split
  next hq =>
    obtain ⟨f, hf, hfq⟩ := List.any_eq_true.mp hq
    rw [List.find?_map]
    -- the first entry at `q` is there, and it now holds the bytes
    obtain ⟨g, hg⟩ : ∃ g, st.files.find? (fun f => f.1 == q) = some g :=
      Option.isSome_iff_exists.mp (List.find?_isSome.mpr ⟨f, hf, hfq⟩)
    have hfind : st.files.find? ((fun f => f.1 == q) ∘ fun f => if f.1 == q then (q, bytes) else f) =
        st.files.find? (fun f => f.1 == q) := by
      congr 1
      funext f
      by_cases hfq : f.1 = q <;> simp [hfq]
    rw [hfind, hg]
    have hgq := List.find?_some hg
    simp only [beq_iff_eq] at hgq
    simp [hgq]
  next hq =>
    rw [List.find?_append, List.find?_eq_none.mpr ?_]
    · simp
    · intro f hf hfq
      exact hq (List.any_eq_true.mpr ⟨f, hf, hfq⟩)

/-- A lookup that went through a directory still does, unless that directory is where the
file was stored, which a store can only do at a path that was no directory to go through. -/
theorem lookup_store_directory {here : Place} {name : String}
    (h : st.lookup here name = .ok .directory) (hq : (st.isFile q || !st.isDir q) = true) :
    (st.store q bytes).lookup here name = .ok .directory := by
  unfold lookup at h ⊢
  split at h
  · cases h
  next hlen =>
    rw [if_neg hlen]
    cases here with
    | outside => cases h
    | inside dir =>
      simp only at h ⊢
      split at h
      · cases h
      next hnotfile =>
        split at h
        next hdir =>
          have hne : joinPath (dir ++ [name]) ≠ q := by
            rintro hpq
            rw [hpq] at hnotfile hdir
            simp [hnotfile, hdir] at hq
          have hnotfile' : ¬(st.store q bytes).isFile (joinPath (dir ++ [name])) = true := by
            rw [isFile_store]
            exact fun h' => h'.elim hnotfile hne
          rw [if_neg hnotfile', if_pos (isDir_store hdir)]
          rfl
        · cases h

theorem enter_store {here here' : Place} {name : String}
    (h : st.enter here name = .ok here') (hq : (st.isFile q || !st.isDir q) = true) :
    (st.store q bytes).enter here name = .ok here' := by
  unfold enter at h ⊢
  by_cases hdot : (name == ".") = true
  · rw [if_pos hdot] at h ⊢
    exact h
  by_cases hdotdot : (name == "..") = true
  · rw [if_neg hdot, if_pos hdotdot] at h ⊢
    exact h
  · -- the component must name a directory, in the store as before
    rw [if_neg hdot, if_neg hdotdot] at h ⊢
    cases hlook : st.lookup here name with
    | error e => simp [hlook, bind, Except.bind] at h
    | ok t =>
      cases t with
      | directory =>
        rw [lookup_store_directory hlook hq]
        simpa [hlook, bind, Except.bind] using h
      | file p => simp [hlook, bind, Except.bind, throw, throwThe, MonadExceptOf.throw] at h
      | missing => simp [hlook, bind, Except.bind, throw, throwThe, MonadExceptOf.throw] at h

theorem foldlM_enter_store (hq : (st.isFile q || !st.isDir q) = true) (names : List String) :
    ∀ {here here' : Place}, names.foldlM st.enter here = .ok here' →
      names.foldlM (st.store q bytes).enter here = .ok here' := by
  induction names with
  | nil => intro here here' h; exact h
  | cons name names ih =>
    intro here here' h
    simp only [List.foldlM_cons, bind, Except.bind] at h ⊢
    cases hstep : st.enter here name with
    | error e => simp [hstep] at h
    | ok mid =>
      rw [hstep] at h
      rw [enter_store hstep hq]
      exact ih h

/-- Storing a file leaves the walk to every path as it was, when the stored path was no
directory to walk through. -/
theorem walk_store {path : String} {s : LastStep} (h : st.walk path = .ok s)
    (hq : (st.isFile q || !st.isDir q) = true) : (st.store q bytes).walk path = .ok s := by
  unfold walk at h ⊢
  simp only [bind, Except.bind] at h ⊢
  split at h
  · cases h
  next hnull =>
    rw [if_neg hnull]
    split at h
    · cases h
    next hlong =>
      rw [if_neg hlong]
      split at h
      · cases h
      next hempty =>
        rw [if_neg hempty]
        split at h
        · exact h
        next last hlast =>
          cases hfold : (((path.splitOn "/").filter fun s => !s.isEmpty).dropLast.foldlM st.enter
              (if path.startsWith "/" then Place.outside else .inside [])) with
          | error e =>
            rw [hfold] at h
            cases h
          | ok dir =>
            rw [hfold] at h
            rw [foldlM_enter_store hq _ hfold]
            exact h

/-- After storing a file, its last component names it. -/
theorem lookup_store_self {dir : List String} {name : String}
    (hlen : ¬name.utf8ByteSize > maxNameBytes) :
    (st.store (joinPath (dir ++ [name])) bytes).lookup (.inside dir) name =
      .ok (.file (joinPath (dir ++ [name]))) := by
  unfold lookup
  rw [if_neg hlen]
  simp only
  rw [if_pos ((isFile_store _).mpr (.inr rfl))]
  rfl

/-- A lookup that finds a file finds it at the path of the component. -/
theorem lookup_file {here : Place} {name p : String} (h : st.lookup here name = .ok (.file p)) :
    ∃ dir, here = .inside dir ∧ p = joinPath (dir ++ [name]) ∧ st.isFile p = true := by
  unfold lookup at h
  split at h
  · cases h
  cases here with
  | outside => cases h
  | inside dir =>
    simp only at h
    split at h
    next hfile =>
      cases h
      exact ⟨dir, rfl, rfl, hfile⟩
    split at h <;> cases h

/-- Everything a successful write can be: the bytes stored at the path of the last component,
which named a file or nothing in a directory of the store, or, outside the store, nothing
kept. -/
theorem write_cases {path : String} {st' : FileStore} (h : st.write path bytes = .ok st') :
    ∃ s name, st.walk path = .ok s ∧ s.name = some name ∧
      (name == "." || name == ".." || s.slash) = false ∧
      ((∃ dir t, s.dir = .inside dir ∧ st.lookup s.dir name = .ok t ∧ t ≠ .directory ∧
          st' = st.store (joinPath (dir ++ [name])) bytes) ∨
        (s.dir = .outside ∧ st' = st)) := by
  unfold write at h
  cases hwalk : st.walk path with
  | error e =>
    rw [hwalk] at h
    cases h
  | ok s =>
    rw [hwalk] at h
    simp only [bind, Except.bind] at h
    cases hname : s.name with
    | none =>
      rw [hname] at h
      cases h
    | some name =>
      rw [hname] at h
      simp only at h
      by_cases hbad : (name == "." || name == ".." || s.slash) = true
      · rw [if_pos hbad] at h
        cases h
      rw [if_neg hbad] at h
      refine ⟨s, name, rfl, hname, Bool.eq_false_iff.mpr hbad, ?_⟩
      cases hlook : st.lookup s.dir name with
      | error e =>
        rw [hlook] at h
        cases h
      | ok t =>
        rw [hlook] at h
        cases t with
        | directory => cases h
        | file p =>
          obtain ⟨dir, hdir, rfl, -⟩ := lookup_file hlook
          cases h
          exact .inl ⟨dir, .file (joinPath (dir ++ [name])), hdir, rfl, by simp, rfl⟩
        | missing =>
          cases hdir : s.dir with
          | inside dir =>
            rw [hdir] at h hlook
            cases h
            exact .inl ⟨dir, .missing, rfl, rfl, by simp, rfl⟩
          | outside =>
            rw [hdir] at h
            cases h
            exact .inr ⟨rfl, rfl⟩

/-- Reading a path after storing the file its last component names gives the bytes stored. -/
theorem read_store_at {path name : String} {s : LastStep} {dir : List String} {t : Target}
    (hwalk : st.walk path = .ok s) (hname : s.name = some name)
    (hok : (name == "." || name == ".." || s.slash) = false) (hdir : s.dir = .inside dir)
    (hlook : st.lookup s.dir name = .ok t) (ht : t ≠ .directory) :
    (st.store (joinPath (dir ++ [name])) bytes).read path = .ok bytes := by
  rw [hdir] at hlook
  -- the stored path was a file or nothing, so no directory to walk through
  have hq : (st.isFile (joinPath (dir ++ [name])) || !st.isDir (joinPath (dir ++ [name]))) = true := by
    unfold lookup at hlook
    split at hlook
    · cases hlook
    simp only at hlook
    split at hlook
    next hfile => simp [hfile]
    split at hlook
    · cases hlook
      exact absurd rfl ht
    next hnotdir => simp [hnotdir]
  have hlen : ¬name.utf8ByteSize > maxNameBytes := by
    unfold lookup at hlook
    split at hlook
    · cases hlook
    next h => exact h
  simp only [Bool.or_eq_false_iff] at hok
  obtain ⟨⟨hdot, hdotdot⟩, hslash⟩ := hok
  unfold read resolve
  simp only [bind, Except.bind]
  rw [walk_store hwalk hq]
  simp only [hname, hdot, hdotdot, Bool.or_false, Bool.false_eq_true, if_false]
  rw [hdir, lookup_store_self hlen]
  simp only [hslash, Bool.false_eq_true, if_false, pure, Except.pure]
  rw [find?_store]

/-- Reading a writable path after writing it gives the bytes written. -/
theorem read_store_of_writesTo {path : String} (h : st.WritesTo path q) (bytes : List UInt8) :
    (st.store q bytes).read path = .ok bytes := by
  obtain ⟨s, name, hwalk, hname, hok, hcase⟩ := write_cases (h bytes)
  rcases hcase with ⟨dir, t, hdir, hlook, ht, hstore⟩ | ⟨hdir, hsame⟩
  · rw [hstore]
    exact read_store_at hwalk hname hok hdir hlook ht
  · -- outside the store nothing is kept, so two writes of different bytes would agree
    exfalso
    obtain ⟨s', _, hwalk', _, _, hcase'⟩ := write_cases (h (bytes ++ [0]))
    rw [hwalk] at hwalk'
    cases hwalk'
    rcases hcase' with ⟨dir, -, hdir', -⟩ | ⟨-, hsame'⟩
    · rw [hdir] at hdir'
      cases hdir'
    · have hfirst : (st.store q bytes).files.find? (fun f => f.1 == q) = some (q, bytes) :=
        find?_store
      have hsecond : (st.store q (bytes ++ [0])).files.find? (fun f => f.1 == q) =
          some (q, bytes ++ [0]) := find?_store
      rw [hsame] at hfirst
      rw [hsame', hfirst] at hsecond
      simp at hsecond

end FileStore

end Retl
