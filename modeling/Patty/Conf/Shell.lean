import Patty.Conf.InPlace

/-! # A configuration file as a shell reads it

The words of a text, line by line, and the lines of it that are handed over where one is rejected or memory runs out. -/

namespace Patty

namespace Conf

inductive Mode
  | bare
  | single
  | double
  | comment
  deriving DecidableEq

/-- The word that is open, the words of the line, and the lines before it. `escaped` says that the next character is
literal. -/
structure Shell where
  mode : Mode
  escaped : Bool
  word : Option Bytes
  line : List Bytes
  lines : List (List Bytes)

namespace Shell

def start : Shell where
  mode := .bare
  escaped := false
  word := none
  line := []
  lines := []

/-- From here on a word is open, if none was. -/
def opened (r : Shell) : Shell := { r with word := some (r.word.getD []) }

/-- The word has another character. -/
def push (r : Shell) (c : UInt8) : Shell := { r with word := some (r.word.getD [] ++ [c]) }

/-- The word is over, if one was open. -/
def endWord (r : Shell) : Shell := { r with word := none, line := r.line ++ r.word.toList }

/-- The line is over, and counts if it has words. -/
def endLine (r : Shell) : Shell :=
  if r.line = [] then r else { r with line := [], lines := r.lines ++ [r.line] }

def step (r : Shell) (c : UInt8) : Shell :=
  if r.escaped then { r.push c with escaped := false }
  else
    match r.mode with
    | .bare =>
      if c = 0x5c then { r.opened with escaped := true }
      else if c = 0x27 then { r.opened with mode := .single }
      else if c = 0x22 then { r.opened with mode := .double }
      else if c = 0x23 ∧ r.word = none then { r with mode := .comment }
      else if c = 0x0a then r.endWord.endLine
      else if charDelim c then r.endWord
      else r.push c
    | .single => if c = 0x27 then { r with mode := .bare } else r.push c
    | .double =>
      if c = 0x5c then { r with escaped := true }
      else if c = 0x22 then { r with mode := .bare }
      else r.push c
    | .comment => if c = 0x0a then { r.endLine with mode := .bare } else r

/-- The lines, when the text is over. A backslash at its end is a character. -/
def finish (r : Shell) : List (List Bytes) := (if r.escaped then r.push 0x5c else r).endWord.endLine.lines

/-- After the characters `cs`. -/
def run (r : Shell) (cs : Bytes) : Shell := cs.foldl step r

end Shell

/-- The lines of a text that have words. -/
def linesOf (content : Bytes) : List (List Bytes) := (Shell.start.run content).finish

/-- The lines that are handed over, where `t` words and `n` lines were before them: not one without the memory for its
words, and none behind one that is not accepted. -/
def handed (env : Env) : Nat → Nat → List (List Bytes) → List (List Bytes)
  | _, _, [] => []
  | t, n, line :: lines =>
    if ∀ k < line.length, env.saves (t + k) then
      line :: if env.accepts n && env.news n then handed env (t + line.length) (n + 1) lines else []
    else []

/-- There was memory for all words so far, and all lines so far were accepted. -/
structure Alive (env : Env) (r : Shell) : Prop where
  saves : ∀ k < r.lines.flatten.length + r.line.length, env.saves k
  accepts : ∀ k < r.lines.length, env.accepts k
  news : ∀ k < r.lines.length, env.news k

variable {env : Env} {r : Shell} {s : Scan} {n t : Nat} {c : UInt8} {cs : Bytes} {ls ls' : List (List Bytes)}

/-! ## What has been read stays -/

/-- The lines continue what has been read. -/
def Shell.Grows (r : Shell) (ls : List (List Bytes)) : Prop :=
  (∃ rest, ls = r.lines ++ rest) ∧ (r.line ≠ [] → ∃ words rest, ls = r.lines ++ (r.line ++ words) :: rest)

theorem grows_endWord (h : r.endWord.Grows ls) : r.Grows ls := by
  refine ⟨h.1, fun hline => ?_⟩
  obtain ⟨words, rest, hls⟩ := h.2 (List.append_ne_nil_of_left_ne_nil hline _)
  exact ⟨r.word.toList ++ words, rest, by rw [← List.append_assoc]; exact hls⟩

theorem grows_endLine (h : r.endLine.Grows ls) : r.Grows ls := by
  unfold Shell.endLine at h
  split at h
  · exact h
  · obtain ⟨rest, hrest⟩ := h.1
    have hls : ls = r.lines ++ (r.line ++ []) :: rest := by rw [hrest]; simp
    exact ⟨⟨_, hls⟩, fun _ => ⟨[], rest, hls⟩⟩

theorem grows_step (h : (r.step c).Grows ls) : r.Grows ls := by
  unfold Shell.step at h
  split at h
  · exact h
  cases hmode : r.mode with
  | bare =>
    rw [hmode] at h
    dsimp only at h
    split at h
    · exact h
    split at h
    · exact h
    split at h
    · exact h
    split at h
    · exact h
    split at h
    · exact grows_endWord (grows_endLine h)
    split at h
    · exact grows_endWord h
    · exact h
  | single =>
    rw [hmode] at h
    dsimp only at h
    split at h <;> exact h
  | double =>
    rw [hmode] at h
    dsimp only at h
    split at h
    · exact h
    split at h <;> exact h
  | comment =>
    rw [hmode] at h
    dsimp only at h
    split at h
    · exact grows_endLine h
    · exact h

theorem grows_run (h : (r.run cs).Grows ls) : r.Grows ls := by
  induction cs generalizing r with
  | nil => exact h
  | cons c cs ih => exact grows_step (ih h)

theorem endLine_line (r : Shell) : r.endLine.line = [] := by
  unfold Shell.endLine
  split
  · assumption
  · rfl

theorem grows_lines (r : Shell) : r.Grows r.endLine.lines :=
  grows_endLine ⟨⟨[], (List.append_nil _).symm⟩, fun hline => absurd (endLine_line r) hline⟩

theorem grows_finish (r : Shell) : r.Grows r.finish := by
  unfold Shell.finish
  split
  · exact grows_endWord (r := r.push 0x5c) (grows_lines _)
  · exact grows_endWord (grows_lines _)

/-! ## The lines that are handed over -/

/-- Lines that are handed over and accepted. -/
theorem handed_append (hsaves : ∀ k < ls.flatten.length, env.saves (t + k))
    (haccepts : ∀ k < ls.length, env.accepts (n + k)) (hnews : ∀ k < ls.length, env.news (n + k)) :
    handed env t n (ls ++ ls') = ls ++ handed env (t + ls.flatten.length) (n + ls.length) ls' := by
  induction ls generalizing t n with
  | nil => rfl
  | cons l ls ih =>
    rw [List.flatten_cons, List.length_append] at hsaves
    rw [List.length_cons, forall_lt_succ] at haccepts hnews
    have hrest := @ih (n + 1) (t + l.length) (fun k hk => ?_) haccepts.2 hnews.2
    · have hfirst : ∀ k < l.length, env.saves (t + k) := fun k hk => hsaves k (by omega)
      rw [List.cons_append, handed, if_pos hfirst, haccepts.1, hnews.1, hrest, List.flatten_cons, List.length_append,
        List.length_cons, Nat.add_assoc, Nat.add_assoc, Nat.add_comm 1]
      rfl
    · have hnext := hsaves (l.length + k) (by omega)
      rwa [← Nat.add_assoc] at hnext

theorem handed_lines (h : Alive env r) (ls' : List (List Bytes)) :
    handed env 0 0 (r.lines ++ ls') = r.lines ++ handed env r.lines.flatten.length r.lines.length ls' := by
  have hsaves : ∀ k < r.lines.flatten.length, env.saves (0 + k) := by
    intro k hk
    rw [Nat.zero_add]
    exact h.saves k (by omega)
  have haccepts : ∀ k < r.lines.length, env.accepts (0 + k) := by
    intro k hk
    rw [Nat.zero_add]
    exact h.accepts k hk
  have hnews : ∀ k < r.lines.length, env.news (0 + k) := by
    intro k hk
    rw [Nat.zero_add]
    exact h.news k hk
  rw [handed_append hsaves haccepts hnews, Nat.zero_add, Nat.zero_add]

/-- The line that is being read has its memory. -/
theorem handed_line (h : Alive env r) (ls' : List (List Bytes)) :
    handed env r.lines.flatten.length r.lines.length (r.line :: ls') =
      r.line :: if env.accepts r.lines.length && env.news r.lines.length then
        handed env (r.lines.flatten.length + r.line.length) (r.lines.length + 1) ls' else [] := by
  rw [handed, if_pos fun k hk => h.saves _ (by omega)]

/-- The run has ended early, and what has been handed over is all that is. -/
def Over (env : Env) (r : Shell) (s : Scan) : Prop := ∀ ls, r.Grows ls → handed env 0 0 ls = s.calls

theorem Over.run (h : Over env r s) (cs : Bytes) : handed env 0 0 (r.run cs).finish = s.calls :=
  h _ (grows_run (grows_finish _))

end Conf

end Patty
