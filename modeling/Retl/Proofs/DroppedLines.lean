import Retl.Proofs.Sessions
/-!
# Dropped lines

A session takes a line only when the line is code that is run and reports nothing. Every
other line is dropped: a line that reports a diagnostic, from reading, analysis or
evaluation, and every command line (a blank line, `:help`, `:env`, `:parse`, `:analyze`).
A dropped line leaves the session's scope and aliases as they were (`runCode_drops`).

Between lines a session has nothing recorded and nothing printed on its machine
(`Session.Idle`). From such a session a dropped line that read no input and wrote no file
leaves the whole session as it was, down to the count that names new functions, so the
next line cannot tell that it ran. Hence deleting the dropped lines from a session's
input, when none of them read or wrote, changes neither what the other lines print nor
how and in which state the session ends (`feed_sift`).

A script can hold a session's lines one after another, separated by `;`, but joining the
lines with `\n;\n` does not always give a program with the lines' statements: a `//`
comment runs to the end of its line, and a backslash right before the line feed carries it
on to the next line. A line whose comment ends in a backslash therefore swallows the `;`
that follows it, and its last operand meets the next line's first one: the session fed
`1 // \` and `-2` prints `1` and `-2`, while the joined program reads as `1 - 2`
(`backslash_comment_swallows_separator`).
-/

namespace Retl

namespace Session

/-- Whether a request is one of the commands, which run no program. -/
def Request.isCommand : Request → Bool
  | .exit | .code .run _ => false
  | _ => true

/-- Whether a line stays when the dropped lines are deleted: `exit`, or code that is run
and reports nothing. -/
def stays (s : Session) (line : String) : Bool :=
  match s.turn line with
  | none => true
  | some t => !(request line).isCommand && t.diagnostics.isEmpty

/-- A session between lines: nothing recorded and nothing printed on its machine. -/
def Idle (s : Session) : Prop := s.machine.diagnostics = #[] ∧ s.machine.output = ""

/-- Along a run of the session on the lines, every dropped line leaves the input unread
and the files as they were. -/
def QuietDrops : Session → List String → Prop
  | _, [] => True
  | s, line :: rest =>
    match s.turn line with
    | none => True
    | some t =>
      (s.stays line = false →
        t.next.machine.input = s.machine.input ∧ t.next.machine.files = s.machine.files) ∧
      QuietDrops t.next rest

namespace QuietDrops

theorem cons_of_next_eq {s : Session} {line : String} {t : Turn} {rest : List String}
    (ht : s.turn line = some t) (hnext : t.next = s) (hrest : QuietDrops s rest) :
    QuietDrops s (line :: rest) := by
  simp only [QuietDrops, ht]
  exact ⟨fun _ => ⟨by rw [hnext], by rw [hnext]⟩, hnext ▸ hrest⟩

theorem cons_of_stays {s : Session} {line : String} {t : Turn} {rest : List String}
    (ht : s.turn line = some t) (hstay : s.stays line = true) (hrest : QuietDrops t.next rest) :
    QuietDrops s (line :: rest) := by
  simp only [QuietDrops, ht]
  exact ⟨fun h => absurd (hstay.symm.trans h) Bool.noConfusion, hrest⟩

theorem cons_of_exit {s : Session} {line : String} {rest : List String}
    (ht : s.turn line = none) : QuietDrops s (line :: rest) := by
  simp only [QuietDrops, ht]

end QuietDrops

/-- Run the lines and keep those that stay, each with what it printed in the run. The
lines after an `exit` are never run and are kept as they are. -/
def sift (s : Session) : List String → List String × List String
  | [] => ([], [])
  | line :: rest =>
    match s.turn line with
    | none => (line :: rest, [])
    | some t =>
      let kept := sift t.next rest
      if s.stays line then (line :: kept.1, t.output :: kept.2) else kept

theorem start_idle (lim : Limits) (debug : Bool) (input : List Char) (files : FileStore) :
    (start lim debug input files).Idle :=
  ⟨rfl, rfl⟩

/-- Everything running code can do to the session: nothing, drop the run and keep only
what its machine read and wrote, or, for code that is run and reports nothing, take the
scope and aliases the run made. -/
theorem runCode_cases (s : Session) (cmd : Command) (code : String) :
    (s.runCode cmd code).next = s ∨
    (∃ m, (s.runCode cmd code).next = { s with machine := s.drop m }) ∨
    (cmd = .run ∧ (s.runCode cmd code).diagnostics = #[] ∧
      ∃ (env : Env) (aliases : Aliases) (m : Machine), (s.runCode cmd code).next =
        { s with env, aliases, machine := { m with diagnostics := #[], output := "" } }) := by
  unfold runCode
  split
  · exact .inl rfl
  split
  · exact .inl rfl
  dsimp only
  split
  · exact .inl rfl
  split
  · exact .inl rfl
  split
  · exact .inl rfl
  split
  next m _ =>
    split
    · exact .inr (.inl ⟨m, rfl⟩)
    · -- the code is shown neither as a tree nor as an expression, so it was run
      refine .inr (.inr ⟨?_, rfl, _, _, m, rfl⟩)
      cases cmd <;> simp_all
  next m _ => exact .inr (.inl ⟨m, rfl⟩)

/-- Running code that reports a diagnostic, or only shows the code, leaves the session as
it was but for what the machine read and wrote. -/
theorem runCode_drops {s : Session} {cmd : Command} {code : String}
    (h : (s.runCode cmd code).diagnostics ≠ #[] ∨ cmd ≠ .run) :
    (s.runCode cmd code).next = s ∨ ∃ m, (s.runCode cmd code).next = { s with machine := s.drop m } := by
  rcases runCode_cases s cmd code with hsame | hdrop | ⟨hrun, hnone, -⟩
  · exact .inl hsame
  · exact .inr hdrop
  · -- a run that reported nothing meets neither alternative of the premise
    rcases h with h | h
    · exact absurd hnone h
    · exact absurd hrun h

theorem runCode_idle {s : Session} (hs : s.Idle) (cmd : Command) (code : String) :
    (s.runCode cmd code).next.Idle := by
  rcases runCode_cases s cmd code with hsame | ⟨m, hdrop⟩ | ⟨-, -, env, aliases, m, hnext⟩
  · rw [hsame]
    exact hs
  · rw [hdrop]
    exact ⟨rfl, rfl⟩
  · rw [hnext]
    exact ⟨rfl, rfl⟩

/-- A line either is code, and its turn is the code's run, or it is a command, which
reports nothing and leaves the session as it was. -/
theorem turn_cases {s : Session} {line : String} {t : Turn} (ht : s.turn line = some t) :
    (∃ cmd code, request line = .code cmd code ∧ t = s.runCode cmd code) ∨
    ((request line).isCommand = true ∧ t.diagnostics = #[] ∧ t.next = s) := by
  unfold turn at ht
  split at ht
  next => cases ht
  next hreq =>
    cases ht
    exact .inr ⟨by rw [hreq]; rfl, rfl, rfl⟩
  next hreq =>
    cases ht
    exact .inr ⟨by rw [hreq]; rfl, rfl, rfl⟩
  next hreq =>
    cases ht
    exact .inr ⟨by rw [hreq]; rfl, rfl, rfl⟩
  next cmd code hreq =>
    cases ht
    exact .inl ⟨cmd, code, hreq, rfl⟩

/-- A turn that reports a diagnostic or answers a command leaves the session as it was, but
for what its machine read and wrote. -/
theorem turn_drops {s : Session} {line : String} {t : Turn} (ht : s.turn line = some t)
    (h : t.diagnostics ≠ #[] ∨ (request line).isCommand = true) :
    t.next = s ∨ ∃ m, t.next = { s with machine := s.drop m } := by
  rcases turn_cases ht with ⟨cmd, code, hreq, rfl⟩ | ⟨-, -, hsame⟩
  · refine runCode_drops (h.imp id fun hcmd hrun => ?_)
    simp [hreq, hrun, Request.isCommand] at hcmd
  · exact .inl hsame

theorem turn_idle {s : Session} {line : String} {t : Turn} (hs : s.Idle)
    (ht : s.turn line = some t) : t.next.Idle := by
  rcases turn_cases ht with ⟨cmd, code, -, rfl⟩ | ⟨-, -, hsame⟩
  · exact runCode_idle hs cmd code
  · rw [hsame]
    exact hs

/-- From a session between lines, a dropped line that read no input and wrote no file
leaves the session exactly as it was. -/
theorem turn_dropped_eq {s : Session} {line : String} {t : Turn} (hs : s.Idle)
    (ht : s.turn line = some t) (hstay : s.stays line = false)
    (hquiet : t.next.machine.input = s.machine.input ∧ t.next.machine.files = s.machine.files) :
    t.next = s := by
  have hdrop : t.diagnostics ≠ #[] ∨ (request line).isCommand = true := by
    simp only [stays, ht, Bool.and_eq_false_iff, Bool.not_eq_false'] at hstay
    rcases hstay with h | h
    · exact .inr h
    · exact .inl fun hnil => by simp [hnil] at h
  rcases turn_drops ht hdrop with hsame | ⟨m, hnext⟩
  · exact hsame
  · rw [hnext] at hquiet ⊢
    obtain ⟨hinput, hfiles⟩ := hquiet
    obtain ⟨hdiags, houtput⟩ := hs
    -- the dropped machine differs from the session's only where the line read or wrote
    have hmachine : s.drop m = s.machine := by
      simp only [drop] at hinput hfiles ⊢
      cases hm : s.machine
      simp_all
    rw [hmachine]

/-- Feeding only the lines that stay prints, line for line, what they printed in the full
run, and ends the session with the same text and in the same state. -/
theorem feed_sift (lines : List String) :
    ∀ s : Session, s.Idle → QuietDrops s lines →
      s.feed (s.sift lines).1 = ((s.sift lines).2, (s.feed lines).2) := by
  induction lines with
  | nil => intro s _ _; rfl
  | cons line rest ih =>
    intro s hs hquiet
    cases ht : s.turn line with
    | none =>
      simp [sift, feed, handle, ht]
    | some t =>
      simp only [QuietDrops, ht] at hquiet
      obtain ⟨hdropped, hrest⟩ := hquiet
      have hnext := ih t.next (turn_idle hs ht) hrest
      by_cases hstay : s.stays line = true
      · simp only [sift, ht, hstay, if_true, feed, handle]
        rw [hnext]
      · have hsame := turn_dropped_eq hs ht (by simpa using hstay) (hdropped (by simpa using hstay))
        simp only [sift, ht, hstay, Bool.false_eq_true, if_false, feed, handle]
        rw [hsame] at hnext ⊢
        exact hnext

end Session

/-- Failed and command lines are no-ops on a session. A line that reports a diagnostic, and
every command line, leaves the session's scope and aliases as they were; and when no such
line of a session's input reads input or writes a file, deleting them all from the input
changes neither what the remaining lines print, nor the text the session ends with, nor its
final state. -/
theorem dropped_lines_leave_no_trace :
    (∀ (s : Session) (line : String) (t : Session.Turn), s.turn line = some t →
      (t.diagnostics ≠ #[] ∨ (Session.request line).isCommand = true) →
      t.next.env = s.env ∧ t.next.aliases = s.aliases) ∧
    (∀ (lim : Limits) (debug : Bool) (input : List Char) (files : FileStore) (lines : List String),
      let s := Session.start lim debug input files
      Session.QuietDrops s lines → s.feed (s.sift lines).1 = ((s.sift lines).2, (s.feed lines).2)) := by
  refine ⟨fun s line t ht h => ?_, fun lim debug input files lines hquiet => ?_⟩
  · rcases Session.turn_drops ht h with hsame | ⟨m, hnext⟩
    · rw [hsame]
      exact ⟨rfl, rfl⟩
    · rw [hnext]
      exact ⟨rfl, rfl⟩
  · exact Session.feed_sift lines _ (Session.start_idle lim debug input files) hquiet

/-- A fresh session fed `:help`, a line that does not parse, a line that binds `y` and then
divides by zero, the line `7`, `exit` and a line after it: the first three lines are dropped,
and the session fed only `7`, `exit` and what follows prints the same and ends the same. -/
theorem help_unreadable_and_failing_lines_leave_no_trace :
    let s := Session.start ⟨1000, 1000, 1000⟩ false [] FileStore.empty
    let lines := [":help", "1 +", "let y = 2; y / 0", "7", "exit", "print(1)"]
    Session.QuietDrops s lines ∧ s.feed (s.sift lines).1 = ((s.sift lines).2, (s.feed lines).2) := by
  intro s lines
  have hidle : s.Idle := Session.start_idle _ false [] FileStore.empty
  -- a line that reports a diagnostic, reads no input and writes no file passes the session on
  have hdrop : ∀ line, ((s.turn line).map fun t =>
      (t.diagnostics.isEmpty, t.next.machine.input, t.next.machine.files.files)) =
        some (false, [], []) → ∃ t, s.turn line = some t ∧ t.next = s := by
    intro line h
    obtain ⟨t, ht, hobs⟩ := Option.map_eq_some_iff.1 h
    simp only [Prod.mk.injEq] at hobs
    obtain ⟨hdiag, hinput, hfiles⟩ := hobs
    have hstay : s.stays line = false := by simp only [Session.stays, ht, hdiag, Bool.and_false]
    exact ⟨t, ht, Session.turn_dropped_eq hidle ht hstay ⟨hinput, congrArg FileStore.mk hfiles⟩⟩
  -- the two failing lines, run outright: one does not parse, the other halts its division
  obtain ⟨t₁, h₁, hn₁⟩ := hdrop "1 +" (by
    simp only [Session.turn, Session.runCode, Eval.runTopLevel, Eval.walkBindings_some]
    decide +kernel)
  obtain ⟨t₂, h₂, hn₂⟩ := hdrop "let y = 2; y / 0" (by
    simp only [Session.turn, Session.runCode, Eval.runTopLevel, Eval.walkBindings_some]
    decide +kernel)
  have hstay : s.stays "7" = true := by
    simp only [Session.stays, Session.turn, Session.runCode, Eval.runTopLevel,
      Eval.walkBindings_some]
    decide +kernel
  have hhelp : s.turn ":help" = some ⟨Session.helpText, #[], s⟩ := rfl
  have h₃ : s.turn "7" = some (s.runCode .run "7") := rfl
  have hexit : ∀ s' : Session, s'.turn "exit" = none := fun _ => rfl
  have hquiet₃ : Session.QuietDrops s ["7", "exit", "print(1)"] :=
    .cons_of_stays h₃ hstay (.cons_of_exit (hexit _))
  -- the failing line's rule gets its session and line outright: found by unification, they
  -- would have Lean run the line to compare the two sides
  have hquiet₂ := @Session.QuietDrops.cons_of_next_eq s "let y = 2; y / 0" t₂ _ h₂ hn₂ hquiet₃
  have hquiet : Session.QuietDrops s lines :=
    .cons_of_next_eq hhelp rfl (.cons_of_next_eq h₁ hn₁ hquiet₂)
  exact ⟨hquiet, dropped_lines_leave_no_trace.2 ⟨1000, 1000, 1000⟩ false [] FileStore.empty lines hquiet⟩

/-- The session fed `1 // \` and then `-2` prints each line's value, `1` and `-2`, and no
diagnostic; the two lines joined with `\n;\n` run as one program to `-1`, again with no
diagnostic, since the comment carries on over the `;`. -/
theorem backslash_comment_swallows_separator :
    ((Session.start ⟨1000, 1000, 1000⟩ false [] FileStore.empty).feed ["1 // \\", "-2"]).1 =
      ["=> 1 : int\n", "=> -2 : int\n"] ∧
    let r := runSource ⟨1000, 1000, 1000⟩ "<input>" ("1 // \\" ++ "\n;\n" ++ "-2") false (Machine.start [] FileStore.empty)
    r.2.diagnostics = #[] ∧ r.1.map (fun v => v.render ++ " : " ++ v.type.render) = some "-1 : int" := by
  constructor
  · simp only [Session.feed, Session.handle, Session.turn, Session.runCode, Eval.runTopLevel,
      Eval.walkBindings_some]
    decide +kernel
  · decide +kernel

end Retl
