import Retl.Proofs.DictLiterals
import Retl.Proofs.DroppedLines
/-!
# A scope lists what it resolves

A scope is a chain of frames, innermost first, and a frame holds its bindings in the order
their names were first set. Two walks read the chain. `Env.lookup` stops at the first frame
that binds a name and takes that frame's binding; `Env.names` lists every name bound
anywhere, skipping the names it has met in a frame further in. This module shows that the two
walks agree on shadowing, for chains of any length and with a name bound in any number of
frames (`ScopeListing`):

* the names listed are exactly the names that resolve, each once;
* a name resolves to its innermost binding (`Env.Innermost`): the one in the innermost frame
  that binds it, at the first slot it holds there;
* the names come in the order of those bindings: by frame, innermost first, and within a
  frame in the order the names were set.

The step lemmas say what one more frame does: lookup tries it first (`Env.lookup_cons`), and
the listing puts its names first, followed by the outer names it does not shadow
(`Env.names_cons`).

The session's `:env` prints the listed names that are not a builtin's name and not a
statement's, one line each with the value the name resolves to. A binding the user makes under
a builtin's name, as `let map = 5` does, resolves and shadows the builtin, but is left out of
the listing (`builtin_named_binding_is_not_listed`).
-/

namespace Retl

/-! ### Lists without repeats, in order of first occurrence -/

/-- Dropping repeats and filtering commute. -/
theorem eraseDups_filter {α : Type} [BEq α] [LawfulBEq α] (p : α → Bool) :
    ∀ l : List α, (l.filter p).eraseDups = l.eraseDups.filter p
  | [] => rfl
  | a :: as => by
    have hshort : (as.filter fun b => !b == a).length < as.length + 1 :=
      Nat.lt_succ_of_le (List.length_filter_le _ _)
    have ih := eraseDups_filter p (as.filter fun b => !b == a)
    rw [List.eraseDups_cons]
    by_cases hp : p a
    · rw [List.filter_cons_of_pos hp, List.eraseDups_cons, List.filter_cons_of_pos hp, ← ih,
        List.filter_filter, List.filter_filter]
      simp only [Bool.and_comm]
    · rw [List.filter_cons_of_neg hp, List.filter_cons_of_neg hp, ← ih, List.filter_filter]
      -- the elements that pass `p` all differ from `a`, which does not
      congr 1
      refine List.filter_congr fun b _ => ?_
      by_cases hb : b = a
      · subst hb; simp [hp]
      · simp [hb]
termination_by l => l.length

/-- Without its repeats a list is its head followed by the rest without the head and without
repeats. -/
theorem eraseDups_cons_filter {α : Type} [BEq α] [LawfulBEq α] (a : α) (as : List α) :
    (a :: as).eraseDups = a :: as.eraseDups.filter fun b => !b == a := by
  rw [List.eraseDups_cons, eraseDups_filter]

/-- A list without repeats keeps the order of first occurrences. -/
theorem eraseDups_pairwise_idxOf {α : Type} [BEq α] [LawfulBEq α] :
    ∀ l : List α, l.eraseDups.Pairwise fun a b => l.idxOf a < l.idxOf b
  | [] => List.Pairwise.nil
  | x :: xs => by
    rw [eraseDups_cons_filter, List.pairwise_cons]
    constructor
    · intro b hb
      have hbx : b ≠ x := by simpa using (List.mem_filter.1 hb).2
      simp [List.idxOf_cons, beq_false_of_ne (Ne.symm hbx)]
    · refine ((eraseDups_pairwise_idxOf xs).filter _).imp_of_mem fun {a b} ha hb hab => ?_
      have hax : a ≠ x := by simpa using (List.mem_filter.1 ha).2
      have hbx : b ≠ x := by simpa using (List.mem_filter.1 hb).2
      simpa [List.idxOf_cons, Ne.symm hax, Ne.symm hbx] using hab

/-! ### Frames -/

namespace Frame

/-- Slot `k` of frame `f` holds the first binding of `n`, and binds it to `v`. -/
def FirstSlot (f : Frame) (n : String) (k : Nat) (v : Value) : Prop :=
  f[k]? = some (n, v) ∧ n ∉ (f.take k).map Prod.fst

variable {f : Frame} {m n : String} {w v : Value} {k : Nat}

@[simp] theorem firstSlot_cons_zero : FirstSlot ((m, w) :: f) n 0 v ↔ m = n ∧ w = v := by
  simp [FirstSlot]

@[simp] theorem firstSlot_cons_succ :
    FirstSlot ((m, w) :: f) n (k + 1) v ↔ m ≠ n ∧ FirstSlot f n k v := by
  simp only [FirstSlot, List.getElem?_cons_succ, List.take_succ_cons, List.map_cons,
    List.mem_cons, not_or]
  constructor
  · rintro ⟨hk, hnm, hrest⟩
    exact ⟨Ne.symm hnm, hk, hrest⟩
  · rintro ⟨hmn, hk, hrest⟩
    exact ⟨hk, Ne.symm hmn, hrest⟩

theorem mem_of_firstSlot (h : FirstSlot f n k v) : n ∈ f.map Prod.fst :=
  List.mem_map.2 ⟨(n, v), List.mem_of_getElem? h.1, rfl⟩

/-- The first slot of a name is its index among the frame's names. -/
theorem idxOf_of_firstSlot (h : FirstSlot f n k v) : (f.map Prod.fst).idxOf n = k := by
  induction f generalizing k with
  | nil => simp [FirstSlot] at h
  | cons b f ih =>
    obtain ⟨m, w⟩ := b
    cases k with
    | zero =>
      obtain ⟨rfl, -⟩ := firstSlot_cons_zero.1 h
      simp
    | succ k =>
      obtain ⟨hmn, hk⟩ := firstSlot_cons_succ.1 h
      simp [hmn, ih hk]

/-- Searching a frame for a name finds its first binding. -/
theorem find?_map_snd_eq_some :
    (f.find? fun b => b.1 == n).map Prod.snd = some v ↔ ∃ k, FirstSlot f n k v := by
  induction f with
  | nil => simp [FirstSlot]
  | cons b f ih =>
    obtain ⟨m, w⟩ := b
    by_cases hmn : m = n
    · subst hmn
      constructor
      · intro h
        exact ⟨0, firstSlot_cons_zero.2 ⟨rfl, by simpa using h⟩⟩
      · rintro ⟨k, hk⟩
        cases k with
        | zero => simp [(firstSlot_cons_zero.1 hk).2]
        | succ k => exact absurd rfl (firstSlot_cons_succ.1 hk).1
    · rw [List.find?_cons_of_neg (by simpa using hmn), ih]
      constructor
      · rintro ⟨k, hk⟩
        exact ⟨k + 1, firstSlot_cons_succ.2 ⟨hmn, hk⟩⟩
      · rintro ⟨k, hk⟩
        cases k with
        | zero => exact absurd (firstSlot_cons_zero.1 hk).1 hmn
        | succ k => exact ⟨k, (firstSlot_cons_succ.1 hk).2⟩

theorem find?_eq_none_iff : (f.find? fun b => b.1 == n) = none ↔ n ∉ f.map Prod.fst := by
  rw [List.find?_eq_none]
  constructor
  · intro h hn
    obtain ⟨b, hb, rfl⟩ := List.mem_map.1 hn
    exact h b hb (beq_self_eq_true _)
  · intro h b hb hbn
    exact h (List.mem_map.2 ⟨b, hb, beq_iff_eq.1 hbn⟩)

/-- Searching a frame for a name finds a binding exactly when the frame binds the name. -/
theorem isSome_find?_iff :
    ((f.find? fun b => b.1 == n).map Prod.snd).isSome ↔ n ∈ f.map Prod.fst := by
  rw [Option.isSome_map, Option.isSome_iff_ne_none, ne_eq, find?_eq_none_iff, not_not]

end Frame

/-! ### Scopes -/

namespace Env

/-- The binding of `n` that shadows every other: frame `i` of `env`, counted from the
innermost, is the innermost frame that binds `n`, and slot `k` of it holds `n`'s first
binding there, to `v`. -/
def Innermost (env : Env) (n : String) (i k : Nat) (v : Value) : Prop :=
  (∀ g ∈ env.take i, n ∉ g.map Prod.fst) ∧ ∃ f, env[i]? = some f ∧ f.FirstSlot n k v

/-- The innermost binding of `n` comes before that of `m`: in a frame further in, or in the
same frame at an earlier slot. -/
def BoundBefore (env : Env) (n m : String) : Prop :=
  ∀ i k v j l w, env.Innermost n i k v → env.Innermost m j l w → i < j ∨ i = j ∧ k < l

variable {f : Frame} {env : Env} {n : String} {i k : Nat} {v : Value}

@[simp] theorem innermost_cons_zero : Innermost (f :: env) n 0 k v ↔ f.FirstSlot n k v := by
  simp [Innermost]

@[simp] theorem innermost_cons_succ :
    Innermost (f :: env) n (i + 1) k v ↔ n ∉ f.map Prod.fst ∧ Innermost env n i k v := by
  simp only [Innermost, List.take_succ_cons, List.mem_cons, forall_eq_or_imp,
    List.getElem?_cons_succ, and_assoc]

/-- A frame that binds `n` holds its innermost binding. -/
theorem innermost_cons_of_mem (hn : n ∈ f.map Prod.fst) :
    Innermost (f :: env) n i k v ↔ i = 0 ∧ f.FirstSlot n k v := by
  cases i with
  | zero => simp
  | succ i => simp [hn]

/-- Past a frame that does not bind `n`, the innermost binding of `n` is one frame further
out. -/
theorem innermost_cons_of_not_mem (hn : n ∉ f.map Prod.fst) :
    Innermost (f :: env) n i k v ↔ ∃ j, i = j + 1 ∧ Innermost env n j k v := by
  cases i with
  | zero => simpa using fun h => hn (Frame.mem_of_firstSlot h)
  | succ i => simp [hn]

/-- Lookup tries the innermost frame first, and goes on to the rest only when it misses. -/
theorem lookup_cons (f : Frame) (env : Env) (n : String) :
    lookup (f :: env) n = ((f.find? fun b => b.1 == n).map Prod.snd).or (lookup env n) := by
  rw [lookup]
  split <;> rename_i heq <;> simp [heq]

/-- A name resolves exactly when some frame binds it. -/
theorem lookup_isSome_iff : (env.lookup n).isSome ↔ ∃ f ∈ env, n ∈ f.map Prod.fst := by
  induction env with
  | nil => simp [lookup]
  | cons f env ih =>
    rw [lookup_cons, Option.isSome_or, Bool.or_eq_true, Frame.isSome_find?_iff, ih]
    simp

/-- A name resolves to its innermost binding. -/
theorem lookup_eq_some_iff : env.lookup n = some v ↔ ∃ i k, env.Innermost n i k v := by
  induction env with
  | nil => simp [lookup, Innermost]
  | cons f env ih =>
    rw [lookup_cons]
    by_cases hn : n ∈ f.map Prod.fst
    · -- the frame binds `n`: the search stops there, at the first slot of `n`
      obtain ⟨w, hw⟩ := Option.isSome_iff_exists.1 (Frame.isSome_find?_iff.2 hn)
      rw [hw, Option.some_or, ← hw, Frame.find?_map_snd_eq_some]
      simp only [innermost_cons_of_mem hn]
      constructor
      · rintro ⟨k, hk⟩
        exact ⟨0, k, rfl, hk⟩
      · rintro ⟨_, k, -, hk⟩
        exact ⟨k, hk⟩
    · -- the frame misses `n`: the search goes on outwards
      rw [(Option.map_eq_none_iff).2 (Frame.find?_eq_none_iff.2 hn), Option.none_or, ih]
      constructor
      · rintro ⟨i, k, hi⟩
        exact ⟨i + 1, k, (innermost_cons_of_not_mem hn).2 ⟨i, rfl, hi⟩⟩
      · rintro ⟨i, k, hi⟩
        obtain ⟨j, rfl, hj⟩ := (innermost_cons_of_not_mem hn).1 hi
        exact ⟨j, k, hj⟩

theorem mem_names_iff_exists : n ∈ env.names ↔ ∃ f ∈ env, n ∈ f.map Prod.fst := by
  simp [names, List.mem_flatMap]

/-- The names listed are the names that resolve. -/
theorem mem_names_iff : n ∈ env.names ↔ (env.lookup n).isSome := by
  rw [mem_names_iff_exists, lookup_isSome_iff]

/-- A frame lists its own names first, in the order they were set, and then the outer names
it does not shadow. -/
theorem names_cons (f : Frame) (env : Env) :
    names (f :: env) =
      (f.map Prod.fst).eraseDups ++ env.names.filter fun n => !(f.map Prod.fst).contains n := by
  rw [names, names, List.flatMap_cons, List.eraseDups_append, List.removeAll, eraseDups_filter]

/-- Names are listed in the order of their innermost bindings. -/
theorem names_ordered (env : Env) : env.names.Pairwise env.BoundBefore := by
  induction env with
  | nil => exact List.Pairwise.nil
  | cons f env ih =>
    have hout : ∀ {a}, a ∈ (names env).filter (fun n => !(f.map Prod.fst).contains n) →
        a ∉ f.map Prod.fst := fun ha => by simpa using (List.mem_filter.1 ha).2
    rw [names_cons, List.pairwise_append]
    refine ⟨?frame, ?outer, ?cross⟩
    case frame =>
      -- the frame's own names have their innermost bindings in it, at their first slots
      refine (eraseDups_pairwise_idxOf _).imp_of_mem fun {a b} ha hb hab => ?_
      intro i k v j l w hia hjb
      obtain ⟨rfl, hka⟩ := (innermost_cons_of_mem (List.mem_eraseDups.1 ha)).1 hia
      obtain ⟨rfl, hlb⟩ := (innermost_cons_of_mem (List.mem_eraseDups.1 hb)).1 hjb
      rw [Frame.idxOf_of_firstSlot hka, Frame.idxOf_of_firstSlot hlb] at hab
      exact .inr ⟨rfl, hab⟩
    case outer =>
      -- the outer names it does not shadow keep their order, one frame further out
      refine (ih.filter _).imp_of_mem fun {a b} ha hb hab => ?_
      intro _ k v _ l w hia hjb
      obtain ⟨i, rfl, hi⟩ := (innermost_cons_of_not_mem (hout ha)).1 hia
      obtain ⟨j, rfl, hj⟩ := (innermost_cons_of_not_mem (hout hb)).1 hjb
      rcases hab i k v j l w hi hj with hij | ⟨rfl, hkl⟩
      · exact .inl (Nat.succ_lt_succ hij)
      · exact .inr ⟨rfl, hkl⟩
    case cross =>
      intro a ha b hb i k v j l w hia hjb
      obtain ⟨rfl, -⟩ := (innermost_cons_of_mem (List.mem_eraseDups.1 ha)).1 hia
      obtain ⟨j, rfl, -⟩ := (innermost_cons_of_not_mem (hout hb)).1 hjb
      exact .inl (Nat.succ_pos j)

/-- Names that all resolve: a text built name by name from the values they resolve to is
built from the list of the names paired with their values. -/
theorem map_resolved {g : String → String} (line : String × Value → String)
    (hg : ∀ n v, env.lookup n = some v → g n = line (n, v)) (L : List String)
    (hL : ∀ n ∈ L, (env.lookup n).isSome) :
    L.map g = (L.filterMap fun n => (env.lookup n).map (n, ·)).map line := by
  induction L with
  | nil => rfl
  | cons n L ih =>
    obtain ⟨v, hv⟩ := Option.isSome_iff_exists.1 (hL n List.mem_cons_self)
    simp [hv, hg n v hv, ih fun m hm => hL m (List.mem_cons_of_mem n hm)]

end Env

/-- `:env` lists, in the order of the scope's names, one line for each name that is neither
a builtin's nor a statement's, with the value the name resolves to; with no such name it says
so. -/
theorem bindingsText_shows (env : Env) : ∃ shown : List (String × Value),
    shown.map Prod.fst = env.names.filter (fun n =>
      !(Builtin.all.any fun b => b.name == n) && !n.startsWith "dummy$") ∧
    (∀ p ∈ shown, env.lookup p.1 = some p.2) ∧
    Session.bindingsText env =
      if shown = [] then "  (no user-defined bindings)\n"
      else String.join (shown.map fun p =>
        "  " ++ p.1 ++ " = " ++ Session.clip p.2.render ++ " : " ++ p.2.type.render ++ "\n") := by
  set L := env.names.filter (fun n =>
    !(Builtin.all.any fun b => b.name == n) && !n.startsWith "dummy$") with hLdef
  have hL : ∀ n ∈ L, (env.lookup n).isSome :=
    fun n hn => Env.mem_names_iff.1 (List.mem_of_mem_filter hn)
  have hfst := Env.map_resolved Prod.fst (g := fun n => n) (fun _ _ _ => rfl) L hL
  rw [List.map_id'] at hfst
  refine ⟨_, hfst.symm, ?_, ?_⟩
  · intro p hp
    obtain ⟨n, -, hn⟩ := List.mem_filterMap.1 hp
    obtain ⟨v, hv, rfl⟩ := Option.map_eq_some_iff.1 hn
    exact hv
  · unfold Session.bindingsText
    have hempty : (L.filterMap fun n => (env.lookup n).map (n, ·)) = [] ↔ L.isEmpty := by
      rw [List.isEmpty_iff, ← List.map_eq_nil_iff (f := Prod.fst), ← hfst]
    simp only [← hLdef, hempty]
    split
    · rfl
    · congr 1
      exact Env.map_resolved _ (fun n v hv => by simp only [hv]) L hL

/-- `:env` prints a heading and the listing of the session's scope, and leaves the session as
it was. -/
theorem Session.handle_env (s : Session) :
    s.handle ":env" = .reply ("Current environment:\n" ++ Session.bindingsText s.env) s := by
  have htrim : Text.trimBlank ":env" = ":env" := by decide
  have hreq : Session.request ":env" = .showEnv := by simp [Session.request, htrim]
  simp [Session.handle, Session.turn, hreq, Session.Turn.output, Session.diagnosticsText]

/-- What a scope lists and what it resolves agree. -/
structure ScopeListing (env : Env) : Prop where
  /-- No name is listed twice. -/
  nodup : env.names.Nodup
  /-- The names listed are exactly the names that resolve. -/
  mem_names : ∀ n, n ∈ env.names ↔ (env.lookup n).isSome
  /-- A name resolves to its innermost binding. -/
  innermost : ∀ n v, env.lookup n = some v ↔ ∃ i k, env.Innermost n i k v
  /-- Names are listed in the order of their innermost bindings: by frame, innermost first, and
  within a frame by slot. -/
  ordered : env.names.Pairwise env.BoundBefore
  /-- The listing `:env` prints has a line for each listed name that is neither a builtin's nor
  a statement's, in the order of the names, with the value the name resolves to; with no such
  name it says so. -/
  listing : ∃ shown : List (String × Value),
    shown.map Prod.fst = env.names.filter (fun n =>
      !(Builtin.all.any fun b => b.name == n) && !n.startsWith "dummy$") ∧
    (∀ p ∈ shown, env.lookup p.1 = some p.2) ∧
    Session.bindingsText env =
      if shown = [] then "  (no user-defined bindings)\n"
      else String.join (shown.map fun p =>
        "  " ++ p.1 ++ " = " ++ Session.clip p.2.render ++ " : " ++ p.2.type.render ++ "\n")

/-- Every session's scope lists what it resolves, and `:env` prints that listing. -/
theorem listing_agrees_with_lookup (s : Session) :
    ScopeListing s.env ∧
      s.handle ":env" = .reply ("Current environment:\n" ++ Session.bindingsText s.env) s :=
  ⟨⟨nodup_eraseDups _, fun _ => Env.mem_names_iff, fun _ _ => Env.lookup_eq_some_iff,
    Env.names_ordered s.env, bindingsText_shows s.env⟩, Session.handle_env s⟩

/-- A binding made under a builtin's name shadows the builtin, yet `:env` leaves it out: after
`let map = 5` the session evaluates `map` to `5`, and lists no binding of the user's. -/
theorem builtin_named_binding_is_not_listed :
    ((Session.start ⟨1000, 1000, 1000⟩ false [] FileStore.empty).feed ["let map = 5", "map", ":env"]).1 =
      ["", "=> 5 : int\n", "Current environment:\n  (no user-defined bindings)\n"] := by
  simp only [Session.feed, Session.handle, Session.turn, Session.runCode, Eval.runTopLevel,
    Eval.walkBindings_some]
  decide +kernel

end Retl
