import Patty.Conf.Shell

/-! # The words of a configuration file

`patty_conf_read` gives its handler the lines of the file as a shell reads them, as long as no character of it has a
meaning that it gets wrong (`handed_of_regular`). -/

namespace Patty

namespace Conf

/-- The character `c` has no meaning that the scanner gets wrong. -/
structure Plain (r : Shell) (c : UInt8) : Prop where
  escape : c = 0x5c → r.mode = .single ∨ r.mode = .comment
  hash : c = 0x23 → r.mode = .bare → r.word = none
  newline : c = 0x0a → r.mode = .single ∨ r.mode = .double → r.line = []

/-- As long as the run goes on. -/
def Plainly (env : Env) (r : Shell) (content : Bytes) : Prop :=
  ∀ cs c rest, content = cs ++ c :: rest → Alive env (r.run cs) → Plain (r.run cs) c

/-- A file that does not start between words, and does not end in an empty word. -/
structure Regular (env : Env) (content : Bytes) : Prop where
  first : ∀ c ∈ content.head?, charDelim c = false ∧ c ≠ 0x23
  inside : Plainly env .start content
  last : Alive env (Shell.start.run content) → (Shell.start.run content).word ≠ some []

variable {env : Env} {r : Shell} {s s' : Scan} {old : State} {buf : Mem} {i size : Nat} {c : UInt8} {cs : Bytes}

/-! ## The scanner and the shell -/

/-- The scanner has the words of the shell where they lie: those of the line, and the one that is open. -/
structure Holds (env : Env) (buf : Mem) (i : Nat) (r : Shell) (s : Scan) : Prop where
  place : InPlace buf i r.word.isSome s
  member : ∀ token ∈ s.line, token ∈ s.tokens
  word : ∀ w ∈ r.word, s.token.word s.buf = w
  line : s.line.map (·.word s.buf) = r.line
  calls : s.calls = r.lines
  count : s.tokens.length = r.lines.flatten.length + r.line.length
  alive : Alive env r

/-- The state and the position do not matter. -/
theorem Holds.same (h : Holds env buf i r s) (mode : Mode) (escaped : Bool) (state : State) (escape : Bool)
    (last : UInt8) (lineno column : Nat) :
    Holds env buf i { r with mode, escaped } { s with state, escape, last, lineno, column } :=
  ⟨h.place.same _ _ _ _ _ _ _, h.member, h.word, h.line, h.calls, h.count,
    ⟨h.alive.saves, h.alive.accepts, h.alive.news⟩⟩

theorem Holds.succ (h : Holds env buf i r s) : Holds env buf (i + 1) r s :=
  ⟨h.place.succ, h.member, h.word, h.line, h.calls, h.count, h.alive⟩

/-- The words of the line end in front of what is stored next. -/
theorem Holds.stop (h : Holds env buf i r s) {token : Token} (htoken : token ∈ s.line) : token.stop < s.o := by
  have hmember := h.member token htoken
  by_cases hword : r.word.isSome
  · obtain ⟨-, hstop, hbefore⟩ := h.place.inside hword
    have hlt := hbefore token hmember
    rw [Token.stop] at hstop
    omega
  · exact (h.place.between hword).2 token hmember

theorem word_put {token : Token} (h : token.stop ≤ s.o) (b : UInt8) :
    token.word (s.put i b).buf = token.word s.buf :=
  Mem.read_store_disjoint (.inl h)

theorem Holds.line_put (h : Holds env buf i r s) (b : UInt8) : s.line.map (·.word (s.put i b).buf) = r.line := by
  rw [← h.line]
  exact List.map_congr_left fun token htoken => word_put (h.stop htoken).le b

/-- A word starts. -/
theorem Holds.opened (h : Holds env buf i r s) (hword : r.word = none) (lineno column : Nat) :
    Holds env buf i r.opened { s with token := ⟨some s.o, lineno, column, 0⟩ } where
  place := by
    have hnone : ¬r.word.isSome := by rw [hword]; decide
    exact (h.place.start hnone lineno column).congr (iff_of_true trivial rfl)
  member := h.member
  word w hw := by
    cases hw
    rw [hword]
    rfl
  line := h.line
  calls := h.calls
  count := h.count
  alive := ⟨h.alive.saves, h.alive.accepts, h.alive.news⟩

/-- A character is kept. -/
theorem Holds.push (h : Holds env buf i r s) (hword : r.word.isSome) :
    Holds env buf (i + 1) (r.push c) { s.put i c with token := { s.token with len := s.token.len + 1 } } where
  place := (h.place.put hword).congr (iff_of_true hword rfl)
  member := h.member
  word w hw := by
    cases hw
    obtain ⟨w, hw⟩ := Option.isSome_iff_exists.mp hword
    have hstop : s.token.start + s.token.len = s.o := (h.place.inside hword).2.1
    have hkept : (s.put i c).buf.read s.token.start s.token.len = w :=
      (word_put hstop.le c).trans (h.word w hw)
    have hlast : (s.put i c).buf.read (s.token.start + s.token.len) 1 = [c] := by
      rw [hstop]
      exact Mem.read_store_same
    rw [hw]
    change (s.put i c).buf.read s.token.start (s.token.len + 1) = w ++ [c]
    rw [Mem.read_append, hkept, hlast]
  line := h.line_put c
  calls := h.calls
  count := h.count
  alive := ⟨h.alive.saves, h.alive.accepts, h.alive.news⟩

/-- Without the memory for a word its line is not handed over. -/
theorem Holds.over_save (h : Holds env buf i r s) (hword : r.word.isSome) (hsaves : ¬env.saves s.tokens.length)
    (hcalls : s'.calls = s.calls) : Over env r.endWord s' := by
  obtain ⟨w, hw⟩ := Option.isSome_iff_exists.mp hword
  have hline : r.endWord.line = r.line ++ [w] := congrArg (fun w : Option Bytes => r.line ++ w.toList) hw
  intro ls hls
  obtain ⟨words, rest, rfl⟩ := hls.2 (by rw [hline]; simp)
  change handed env 0 0 (r.lines ++ (r.endWord.line ++ words) :: rest) = _
  have hnot : ¬∀ k < (r.endWord.line ++ words).length, env.saves (r.lines.flatten.length + k) := by
    intro hall
    refine hsaves ?_
    rw [h.count]
    exact hall r.line.length (by rw [hline]; simp)
  rw [handed_lines h.alive, handed, if_neg hnot, List.append_nil, hcalls, h.calls]

/-- A word is over. -/
theorem Holds.save (h : Holds env buf i r s) (hword : r.word.isSome) :
    Ends (fun s' => Holds env buf (i + 1) r.endWord s' ∧ s'.state = s.state ∧ s'.escape = s.escape)
      (Over env r.endWord) ((s.put i 0).tokenSave env) := by
  have hplace := h.place.save env hword (Nat.lt_succ_self i)
  obtain ⟨w, hw⟩ := Option.isSome_iff_exists.mp hword
  have hline : r.endWord.line = r.line ++ [w] := congrArg (fun w : Option Bytes => r.line ++ w.toList) hw
  unfold Scan.tokenSave at hplace ⊢
  split at hplace
  · rename_i hsaves
    rw [if_pos hsaves]
    refine ⟨⟨hplace.1.congr (iff_of_false id Bool.false_ne_true), ?_, ?_, ?_, h.calls, ?_, ?_, h.alive.accepts,
      h.alive.news⟩, rfl, rfl⟩
    · intro token htoken
      rcases List.mem_append.mp htoken with htoken | htoken
      · exact List.mem_append_left _ (h.member token htoken)
      · exact List.mem_append_right _ htoken
    · exact fun w hw => nomatch hw
    · have hstop : s.token.stop = s.o := (h.place.inside hword).2.1
      change (s.line ++ [s.token]).map (·.word (s.put i 0).buf) = _
      rw [List.map_append, h.line_put, hline, List.map_singleton, word_put hstop.le, h.word w hw]
    · change (s.tokens ++ [s.token]).length = r.lines.flatten.length + r.endWord.line.length
      rw [hline, List.length_append, List.length_append, h.count, Nat.add_assoc]
      rfl
    · intro k hk
      change k < r.lines.flatten.length + r.endWord.line.length at hk
      rw [hline, List.length_append, List.length_singleton] at hk
      change env.saves s.tokens.length at hsaves
      rw [h.count] at hsaves
      rcases Nat.lt_succ_iff_lt_or_eq.mp hk with hk | rfl
      · exact h.alive.saves k hk
      · exact hsaves
  · rename_i hsaves
    rw [if_neg hsaves]
    exact h.over_save hword hsaves rfl

/-- The line of the shell, where the scanner has one. -/
theorem Holds.line_length (h : Holds env buf i r s) : s.line.length = r.line.length := by
  rw [← h.line, List.length_map]

/-- Behind a line that is not accepted, or without the memory for another, nothing is handed over. -/
theorem Holds.over_line (h : Holds env buf i r s) (hline : r.line ≠ [])
    (hnot : (env.accepts r.lines.length && env.news r.lines.length) = false)
    (hcalls : s'.calls = r.lines ++ [r.line]) : Over env r.endLine s' := by
  intro ls hls
  obtain ⟨rest, rfl⟩ := hls.1
  rw [Shell.endLine, if_neg hline]
  change handed env 0 0 (r.lines ++ [r.line] ++ rest) = _
  rw [List.append_assoc, List.singleton_append, handed_lines h.alive, handed_line h.alive, hnot, hcalls]
  rfl

/-- A line is over. -/
theorem Holds.endLine (h : Holds env buf i r s) (hescape : s.escape = false) :
    Ends (fun s' => Holds env buf i r.endLine s' ∧ s'.state = s.state ∧ s'.escape = s.escape)
      (Over env r.endLine) (s.endLine env 0x0a) := by
  have hend : s.endLine env 0x0a = (s.handle env >>= fun s' => s'.newLine env) := by
    rw [Scan.endLine, hescape]
    rfl
  rw [hend]
  by_cases hline : r.line = []
  · have hempty : s.line.length = 0 := by rw [h.line_length, hline]; rfl
    rw [Scan.handle, if_pos hempty, Except.ok_bind, Scan.newLine, if_pos hempty, Shell.endLine, if_pos hline]
    exact ⟨h, rfl, rfl⟩
  have hlength : s.line.length ≠ 0 := by
    rw [h.line_length]
    exact fun hzero => hline (List.length_eq_zero_iff.mp hzero)
  have hcalls : s.calls ++ [s.line.map (·.word s.buf)] = r.lines ++ [r.line] := by rw [h.calls, h.line]
  have hcount : (s.calls ++ [s.line.map (·.word s.buf)]).length - 1 = r.lines.length := by rw [hcalls]; simp
  have hhandle : s.handle env = if env.accepts r.lines.length then
      .ok { s with calls := s.calls ++ [s.line.map (·.word s.buf)] }
      else .error { s with calls := s.calls ++ [s.line.map (·.word s.buf)] } := by
    rw [Scan.handle, if_neg hlength, ← h.calls]
  rw [hhandle]
  split
  · rename_i haccepts
    rw [Except.ok_bind, Scan.newLine, if_neg hlength, hcount]
    split
    · rename_i hnews
      rw [Shell.endLine, if_neg hline]
      refine ⟨⟨h.place.same s.state s.escape s.last s.lineno s.column _ _,
        fun _ htoken => absurd htoken List.not_mem_nil, h.word, rfl, hcalls, ?_, ?_, ?_, ?_⟩, rfl, rfl⟩
      · rw [h.count]
        simp
      · intro k hk
        refine h.alive.saves k (hk.trans_eq ?_)
        simp
      · intro k hk
        rcases Nat.lt_succ_iff_lt_or_eq.mp (hk.trans_eq List.length_append) with hk | rfl
        · exact h.alive.accepts k hk
        · exact haccepts
      · intro k hk
        rcases Nat.lt_succ_iff_lt_or_eq.mp (hk.trans_eq List.length_append) with hk | rfl
        · exact h.alive.news k hk
        · exact hnews
    · rename_i hnews
      exact h.over_line hline (by simp [hnews]) hcalls
  · rename_i haccepts
    exact h.over_line hline (by simp [haccepts]) hcalls

/-! ## One character -/

/-- The state of the scanner where the shell is. -/
def Shell.state (r : Shell) : State :=
  match r.mode with
  | .bare => if r.word.isSome then .string else .delim
  | .single => .singleQuote
  | .double => .doubleQuote
  | .comment => .comment

/-- The scanner is where the shell is. -/
structure Follows (env : Env) (buf : Mem) (i : Nat) (r : Shell) (s : Scan) : Prop where
  holds : Holds env buf i r s
  state : s.state = r.state
  escape : s.escape = false
  escaped : r.escaped = false
  word : r.state.InString ↔ r.word.isSome

/-- What is to hold when the character has been kept or not. -/
structure Kept (env : Env) (buf : Mem) (i : Nat) (r : Shell) (state : State) (s : Scan) : Prop where
  holds : Holds env buf i r s
  state : s.state = state
  escape : s.escape = false

variable {state : State}

theorem Kept.startToken (h : Kept env buf i r state s) (hold : old = .delim ↔ r.word = none)
    (hstate : state.InString) : Kept env buf i r.opened state (s.startToken old) := by
  obtain ⟨hsame, hescape⟩ := @startToken_fields s old
  refine ⟨?_, hsame.trans h.state, hescape.trans h.escape⟩
  unfold Scan.startToken
  rw [startOfString_eq (h.state ▸ hstate)]
  split
  · rename_i hdelim
    exact h.holds.opened (hold.mp (beq_iff_eq.mp hdelim)) _ _
  · rename_i hdelim
    obtain ⟨w, hw⟩ := Option.ne_none_iff_exists'.mp fun hnone => hdelim (beq_iff_eq.mpr (hold.mpr hnone))
    have hopened : r.opened = r := by
      unfold Shell.opened
      rw [hw, Option.getD_some, ← hw]
    rw [hopened]
    exact h.holds

/-- A character of a word. -/
theorem Kept.text (h : Kept env buf i r state s) (hold : old = .delim ↔ r.word = none) (hstate : state.InString)
    (hwithin : withinString old state) :
    Ends (Kept env buf (i + 1) (r.push c) state) (Over env (r.push c)) ((s.startToken old).keep env old i c) := by
  have hstart := h.startToken hold hstate
  rw [Scan.keep, hstart.state, if_pos hwithin, hstart.escape]
  exact ⟨hstart.holds.push rfl, hstart.state, hstart.escape⟩

/-- A quote is not kept. -/
theorem Kept.quote (h : Kept env buf i r state s) (hold : old = .delim ↔ r.word = none) (hstate : state.InString)
    (hwithin : withinString old state = false) :
    Ends (Kept env buf (i + 1) r.opened state) (Over env r.opened) ((s.startToken old).keep env old i c) := by
  have hstart := h.startToken hold hstate
  have hend : endOfString old state = false := by
    rcases hstate with rfl | rfl | rfl <;> cases old <;> rfl
  rw [keep_lost (.inr (by rw [hstart.state, hwithin])) (by rw [hstart.state, hend])]
  exact ⟨hstart.holds.succ, hstart.state, hstart.escape⟩

/-- Between words. -/
theorem Kept.skip (h : Kept env buf i r state s) (hold : ¬old.InString) (hstate : ¬state.InString) :
    Ends (Kept env buf (i + 1) r state) (Over env r) ((s.startToken old).keep env old i c) := by
  rw [startToken_eq (h.state ▸ hstate), keep_skips hold (h.state ▸ hstate)]
  exact ⟨h.holds.succ, h.state, h.escape⟩

/-- Behind a word. -/
theorem Kept.save (h : Kept env buf i r state s) (hold : old.InString) (hstate : ¬state.InString)
    (hword : r.word.isSome) :
    Ends (Kept env buf (i + 1) r.endWord state) (Over env r.endWord) ((s.startToken old).keep env old i c) := by
  rw [startToken_eq (h.state ▸ hstate), keep_ends hold (h.state ▸ hstate)]
  exact (h.holds.save hword).mono fun s' ⟨hs', hsame, hescape⟩ => ⟨hs', hsame.trans h.state, hescape.trans h.escape⟩

theorem Follows.moved (h : Follows env buf i r s) (hnext : advance s.state s.escape c = (state, false)) :
    Kept env buf i r state (s.moved c) := by
  obtain ⟨lineno, column, hmoved⟩ := moved_eq s c
  rw [hmoved, hnext]
  exact ⟨h.holds.same r.mode r.escaped _ _ _ _ _, rfl, rfl⟩

theorem endLine_word (r : Shell) : r.endLine.word = r.word := by
  unfold Shell.endLine
  split <;> rfl

/-- What follows for the character `c`: the line is over if it is a newline. -/
theorem Ends.turn {r' r'' : Shell} (hc : s.buf i = c)
    (hkeep : Ends (Kept env buf (i + 1) r' state) (Over env r') (((s.moved c).startToken s.state).keep env s.state i c))
    (mode : Mode) (hstep : r'' = { if c = 0x0a then r'.endLine else r' with mode, escaped := false })
    (hstate : state = { r' with mode }.state) (hword : state.InString ↔ r'.word.isSome) :
    Ends (Follows env buf (i + 1) r'') (Over env r'') (s.step env i) := by
  rw [step_eq, hc]
  have hsame : r''.word = r'.word := by
    rw [hstep]
    split
    · exact endLine_word r'
    · rfl
  have hstate' : r''.state = state := by
    rw [hstate, Shell.state, Shell.state, hsame, hstep]
  have hover (s' : Scan) (hs' : Over env r' s') : Over env r'' s' := by
    intro ls hls
    refine hs' ls ?_
    rw [hstep] at hls
    split at hls
    · exact grows_endLine hls
    · exact hls
  have hdone {s' : Scan} (hs' : Kept env buf (i + 1) (if c = 0x0a then r'.endLine else r') state s') :
      Follows env buf (i + 1) r'' (s'.finish c) := by
    refine ⟨?_, hs'.state.trans hstate'.symm, ?_, ?_, ?_⟩
    · rw [hstep]
      exact hs'.holds.same _ _ _ _ _ _ _
    · unfold Scan.finish
      rw [hs'.escape]
      rfl
    · rw [hstep]
    · rw [hstate', hsame]
      exact hword
  cases hrun : ((s.moved c).startToken s.state).keep env s.state i c with
  | error s' =>
    rw [hrun] at hkeep
    exact hover s' hkeep
  | ok s' =>
    rw [hrun] at hkeep
    rw [Except.ok_bind]
    by_cases hnewline : c = 0x0a
    · subst hnewline
      rw [if_pos rfl] at hdone hstep
      have hline := hkeep.holds.endLine hkeep.escape
      have hend : Ends (Kept env buf (i + 1) r'.endLine state) (Over env r'') (s'.endLine env 0x0a) := by
        cases hlast : s'.endLine env 0x0a with
        | ok s'' =>
          rw [hlast] at hline
          exact ⟨hline.1, hline.2.1.trans hkeep.state, hline.2.2.trans hkeep.escape⟩
        | error s'' =>
          rw [hlast] at hline
          rw [hstep]
          exact hline
      exact hend.bind fun s'' hs'' => hdone hs''
    · have hend : s'.endLine env c = .ok s' := by simp [Scan.endLine, hnewline]
      rw [hend, Except.ok_bind]
      rw [if_neg hnewline] at hdone
      exact hdone hkeep

theorem charDelim_special (h : charDelim c) : c ≠ 0x5c ∧ c ≠ 0x27 ∧ c ≠ 0x22 ∧ c ≠ 0x23 := by
  refine ⟨?_, ?_, ?_, ?_⟩ <;> rintro rfl <;> exact absurd h (by decide)

theorem endWord_none (hword : r.word = none) : r.endWord = r := by
  unfold Shell.endWord
  rw [hword, Option.toList_none, List.append_nil, ← hword]

/-- The end of the line leaves the shell between words. -/
theorem bare_same (r : Shell) (hmode : r.mode = .bare) (hescaped : r.escaped = false) :
    (if c = 0x0a then r.endLine else r) =
      { if c = 0x0a then r.endLine else r with mode := .bare, escaped := false } := by
  obtain ⟨mode, escaped, word, line, lines⟩ := r
  subst hmode hescaped
  unfold Shell.endLine
  split
  · split <;> rfl
  · rfl

/-- A character between words, or of a word without quotes. -/
theorem Follows.bare (h : Follows env buf i r s) (hc : s.buf i = c) (hplain : Plain r c) (hmode : r.mode = .bare) :
    Ends (Follows env buf (i + 1) (r.step c)) (Over env (r.step c)) (s.step env i) := by
  obtain ⟨mode, escaped, word, line, lines⟩ := r
  obtain rfl : mode = .bare := hmode
  obtain rfl : escaped = false := h.escaped
  have hold : s.state = .delim ↔ word = none := by
    rw [h.state, Shell.state]
    cases word <;> simp
  have hcases : s.state = .string ∨ s.state = .delim := by
    rw [h.state, Shell.state]
    cases word <;> simp
  have hbackslash : c ≠ 0x5c := fun hc => by simpa using hplain.escape hc
  by_cases hdelim : charDelim c
  · obtain ⟨-, hsingle, hdouble, hhash⟩ := charDelim_special hdelim
    have hnext : advance s.state s.escape c = (.delim, false) := by
      rcases hcases with hcase | hcase <;> simp [advance, hcase, h.escape, hbackslash, hsingle, hdouble, hhash, hdelim]
    have hstep : (Shell.mk .bare false word line lines).step c =
        if c = 0x0a then (Shell.mk .bare false word line lines).endWord.endLine
        else (Shell.mk .bare false word line lines).endWord := by
      simp [Shell.step, hbackslash, hsingle, hdouble, hhash, hdelim]
    rw [hstep]
    cases hword : word with
    | none =>
      subst hword
      have hbetween : ¬s.state.InString := by rw [hold.mpr rfl]; decide
      rw [endWord_none rfl]
      exact ((h.moved hnext).skip hbetween (by decide)).turn hc .bare (bare_same _ rfl rfl) rfl
        (iff_of_false (by decide) Bool.false_ne_true)
    | some w =>
      subst hword
      have hstring : s.state = .string := hcases.resolve_right fun hdelim => absurd (hold.mp hdelim) (by simp)
      have hopen : s.state.InString := by rw [hstring]; decide
      exact ((h.moved hnext).save hopen (by decide) rfl).turn hc .bare (bare_same _ rfl rfl) rfl
        (iff_of_false (by decide) Bool.false_ne_true)
  by_cases hsingle : c = 0x27
  · subst hsingle
    have hnext : advance s.state s.escape 0x27 = (.singleQuote, false) := by
      rcases hcases with hcase | hcase <;> rw [hcase, h.escape] <;> rfl
    have hwithin : withinString s.state .singleQuote = false := by
      rcases hcases with hcase | hcase <;> rw [hcase] <;> rfl
    exact ((h.moved hnext).quote hold (by decide) hwithin).turn hc .single rfl rfl (iff_of_true (by decide) rfl)
  by_cases hdouble : c = 0x22
  · subst hdouble
    have hnext : advance s.state s.escape 0x22 = (.doubleQuote, false) := by
      rcases hcases with hcase | hcase <;> rw [hcase, h.escape] <;> rfl
    have hwithin : withinString s.state .doubleQuote = false := by
      rcases hcases with hcase | hcase <;> rw [hcase] <;> rfl
    exact ((h.moved hnext).quote hold (by decide) hwithin).turn hc .double rfl rfl (iff_of_true (by decide) rfl)
  by_cases hhash : c = 0x23
  · subst hhash
    obtain rfl : word = none := hplain.hash rfl rfl
    have hdelim : s.state = .delim := hold.mpr rfl
    have hnext : advance s.state s.escape 0x23 = (.comment, false) := by
      rw [hdelim, h.escape]
      rfl
    exact ((h.moved hnext).skip (by rw [hdelim]; decide) (by decide)).turn hc .comment rfl rfl
      (iff_of_false (by decide) Bool.false_ne_true)
  · have hnext : advance s.state s.escape c = (.string, false) := by
      rcases hcases with hcase | hcase <;> simp [advance, hcase, h.escape, hbackslash, hsingle, hdouble, hhash, hdelim]
    have hwithin : withinString s.state .string = true := by
      rcases hcases with hcase | hcase <;> rw [hcase] <;> rfl
    refine ((h.moved hnext).text hold (by decide) hwithin).turn hc .bare ?_ rfl (iff_of_true (by decide) rfl)
    have hnewline : c ≠ 0x0a := fun hc => hdelim (by rw [hc]; decide)
    simp [Shell.step, hbackslash, hsingle, hdouble, hhash, hdelim, hnewline, Shell.push]

/-- A newline in quotes does not end the line of the shell, and the scanner has no words in its line. -/
theorem text_same (hline : c = 0x0a → r.line = []) :
    (if c = 0x0a then (r.push c).endLine else r.push c) = r.push c := by
  split
  · rename_i hc
    exact if_pos (hline hc)
  · rfl

/-- A character in single quotes. -/
theorem Follows.single (h : Follows env buf i r s) (hc : s.buf i = c) (hplain : Plain r c) (hmode : r.mode = .single) :
    Ends (Follows env buf (i + 1) (r.step c)) (Over env (r.step c)) (s.step env i) := by
  obtain ⟨mode, escaped, word, line, lines⟩ := r
  obtain rfl : mode = .single := hmode
  obtain rfl : escaped = false := h.escaped
  have hstate : s.state = .singleQuote := h.state
  have hopen : s.state.InString := by rw [hstate]; decide
  obtain ⟨w, rfl⟩ := Option.isSome_iff_exists.mp (h.word.mp (h.state ▸ hopen))
  have hold : s.state = .delim ↔ some w = none := by rw [hstate]; simp
  by_cases hquote : c = 0x27
  · subst hquote
    have hnext : advance s.state s.escape 0x27 = (.string, false) := by rw [hstate, h.escape]; rfl
    have hwithin : withinString s.state .string = false := by rw [hstate]; rfl
    exact ((h.moved hnext).quote hold (by decide) hwithin).turn hc .bare rfl rfl (iff_of_true (by decide) rfl)
  · have hnext : advance s.state s.escape c = (.singleQuote, false) := by simp [advance, hstate, h.escape, hquote]
    have hwithin : withinString s.state .singleQuote = true := by rw [hstate]; rfl
    refine ((h.moved hnext).text hold (by decide) hwithin).turn hc .single ?_ rfl (iff_of_true (by decide) rfl)
    rw [text_same (hplain.newline · (.inl rfl))]
    simp [Shell.step, hquote, Shell.push]

/-- A character in double quotes. -/
theorem Follows.double (h : Follows env buf i r s) (hc : s.buf i = c) (hplain : Plain r c) (hmode : r.mode = .double) :
    Ends (Follows env buf (i + 1) (r.step c)) (Over env (r.step c)) (s.step env i) := by
  obtain ⟨mode, escaped, word, line, lines⟩ := r
  obtain rfl : mode = .double := hmode
  obtain rfl : escaped = false := h.escaped
  have hstate : s.state = .doubleQuote := h.state
  have hopen : s.state.InString := by rw [hstate]; decide
  obtain ⟨w, rfl⟩ := Option.isSome_iff_exists.mp (h.word.mp (h.state ▸ hopen))
  have hold : s.state = .delim ↔ some w = none := by rw [hstate]; simp
  have hbackslash : c ≠ 0x5c := fun hc => by simpa using hplain.escape hc
  by_cases hquote : c = 0x22
  · subst hquote
    have hnext : advance s.state s.escape 0x22 = (.string, false) := by rw [hstate, h.escape]; rfl
    have hwithin : withinString s.state .string = false := by rw [hstate]; rfl
    exact ((h.moved hnext).quote hold (by decide) hwithin).turn hc .bare rfl rfl (iff_of_true (by decide) rfl)
  · have hnext : advance s.state s.escape c = (.doubleQuote, false) := by
      simp [advance, hstate, h.escape, hbackslash, hquote]
    have hwithin : withinString s.state .doubleQuote = true := by rw [hstate]; rfl
    refine ((h.moved hnext).text hold (by decide) hwithin).turn hc .double ?_ rfl (iff_of_true (by decide) rfl)
    rw [text_same (hplain.newline · (.inr rfl))]
    simp [Shell.step, hbackslash, hquote, Shell.push]

/-- A character of a comment. -/
theorem Follows.comment (h : Follows env buf i r s) (hc : s.buf i = c) (hmode : r.mode = .comment) :
    Ends (Follows env buf (i + 1) (r.step c)) (Over env (r.step c)) (s.step env i) := by
  obtain ⟨mode, escaped, word, line, lines⟩ := r
  obtain rfl : mode = .comment := hmode
  obtain rfl : escaped = false := h.escaped
  have hstate : s.state = .comment := h.state
  have hold : ¬s.state.InString := by rw [hstate]; decide
  have hword : ¬word.isSome := fun hword => hold (h.state ▸ h.word.mpr hword)
  obtain rfl : word = none := Option.not_isSome_iff_eq_none.mp hword
  by_cases hnewline : c = 0x0a
  · subst hnewline
    have hnext : advance s.state s.escape 0x0a = (.delim, false) := by rw [hstate, h.escape]; rfl
    refine ((h.moved hnext).skip hold (by decide)).turn hc .bare ?_ rfl (iff_of_false (by decide) Bool.false_ne_true)
    rw [if_pos rfl, Shell.step, if_neg Bool.false_ne_true]
    change { Shell.endLine _ with mode := .bare } = _
    unfold Shell.endLine
    split <;> rfl
  · have hnext : advance s.state s.escape c = (.comment, false) := by simp [advance, hstate, h.escape, hnewline]
    refine ((h.moved hnext).skip hold (by decide)).turn hc .comment ?_ rfl
      (iff_of_false (by decide) Bool.false_ne_true)
    simp [Shell.step, hnewline]

theorem Follows.step (h : Follows env buf i r s) (hc : s.buf i = c) (hplain : Plain r c) :
    Ends (Follows env buf (i + 1) (r.step c)) (Over env (r.step c)) (s.step env i) := by
  cases hmode : r.mode with
  | bare => exact h.bare hc hplain hmode
  | single => exact h.single hc hplain hmode
  | double => exact h.double hc hplain hmode
  | comment => exact h.comment hc hmode

/-! ## The whole file -/

theorem plainly_cons (hplain : Plain r c) (h : Plainly env (r.step c) cs) : Plainly env r (c :: cs) := by
  intro cs' c' rest hcs halive
  cases cs' with
  | nil =>
    cases hcs
    exact hplain
  | cons c₁ cs' =>
    cases hcs
    exact h cs' c' rest rfl halive

theorem Plainly.tail (h : Plainly env r (c :: cs)) : Plainly env (r.step c) cs := by
  intro cs' c' rest hcs
  exact h (c :: cs') c' rest (congrArg (c :: ·) hcs)

theorem Follows.loop (h : Follows env buf i r s) (hplain : Plainly env r cs)
    (hread : ∀ k (hk : k < cs.length), buf (i + k) = cs[k]) :
    Ends (Follows env buf (i + cs.length) (r.run cs)) (fun s' => handed env 0 0 (r.run cs).finish = s'.calls)
      (s.loop env cs.length i) := by
  induction cs generalizing i r s with
  | nil => exact h
  | cons c cs ih =>
    have hc : s.buf i = c := (h.holds.place.unread i le_rfl).trans (hread 0 (Nat.succ_pos _))
    have hstep := h.step hc (hplain [] c cs rfl h.holds.alive)
    rw [List.length_cons, Scan.loop]
    cases hrun : s.step env i with
    | error s' =>
      rw [hrun] at hstep
      exact hstep.run cs
    | ok s' =>
      rw [hrun] at hstep
      have hread' (k : Nat) (hk : k < cs.length) : buf (i + 1 + k) = cs[k] := by
        have hnext : i + 1 + k = i + (k + 1) := by omega
        rw [hnext]
        exact hread (k + 1) (Nat.succ_lt_succ hk)
      have hrest := ih hstep hplain.tail hread'
      rwa [Nat.add_assoc, Nat.add_comm 1] at hrest

/-- The last line, accepted or not. -/
theorem Holds.handle (h : Holds env buf i r s) :
    (left (s.handle env)).calls = handed env 0 0 r.endLine.lines := by
  rw [Scan.handle, h.line_length, Shell.endLine]
  by_cases hline : r.line = []
  · have hlines := handed_lines h.alive []
    rw [List.append_nil] at hlines
    rw [if_pos (List.length_eq_zero_iff.mpr hline), if_pos hline, hlines]
    exact h.calls.trans (List.append_nil _).symm
  · have hlast : handed env r.lines.flatten.length r.lines.length [r.line] = [r.line] := by
      rw [handed_line h.alive]
      split <;> rfl
    rw [if_neg (fun hzero => hline (List.length_eq_zero_iff.mp hzero)), if_neg hline]
    rw [handed_lines h.alive, hlast, ← h.calls, ← h.line]
    dsimp only
    split <;> rfl

theorem Follows.close (h : Follows env buf size r s) (hword : r.word ≠ some []) :
    (left (s.close env size)).calls = handed env 0 0 r.finish := by
  have hfinish : r.finish = r.endWord.endLine.lines := by
    rw [Shell.finish, h.escaped]
    rfl
  rw [hfinish, Scan.close]
  cases hw : r.word with
  | none =>
    have hlen : s.token.len = 0 := (h.holds.place.between (by rw [hw]; decide)).1
    rw [if_neg (not_not.mpr hlen), Except.ok_bind, endWord_none hw]
    exact h.holds.handle
  | some w =>
    have hlen : s.token.len ≠ 0 := by
      intro hzero
      have hempty := h.holds.word w hw
      rw [Token.word, hzero, Mem.read_zero] at hempty
      exact hword (by rw [hw, ← hempty])
    have hsave := h.holds.save (by rw [hw]; rfl)
    rw [if_pos hlen]
    cases hrun : (s.put size 0).tokenSave env with
    | error s' =>
      rw [hrun] at hsave
      exact (hsave _ (grows_lines _)).symm
    | ok s' =>
      rw [hrun] at hsave
      exact hsave.1.handle

/-- The scanner starts in a word. -/
theorem follows_start (env : Env) (buf : Mem) : Follows env buf 0 Shell.start.opened (Scan.start buf) where
  holds := by
    refine ⟨(start_inPlace buf).congr (iff_of_true (.inl rfl) rfl), fun _ htoken => absurd htoken List.not_mem_nil,
      fun w hw => ?_, rfl, rfl, rfl, ?_⟩
    · cases hw
      rfl
    · exact ⟨fun _ hk => absurd hk (Nat.not_lt_zero _), fun _ hk => absurd hk (Nat.not_lt_zero _),
        fun _ hk => absurd hk (Nat.not_lt_zero _)⟩
  state := rfl
  escape := rfl
  escaped := rfl
  word := iff_of_true (.inl rfl) rfl

/-- The handler is given the lines of the file as a shell reads them, if the file does not start between words or end
in an empty word, and no character has a meaning that the scanner gets wrong, as long as the run goes on. -/
theorem handed_of_regular (env : Env) (content : Bytes) (rest : Mem) (h : Regular env content) :
    (left (read env content rest)).calls = handed env 0 0 (linesOf content) := by
  have hstart := follows_start env (.ofBytes content rest)
  cases content with
  | nil => rfl
  | cons c cs =>
    obtain ⟨hdelim, hhash⟩ := h.first c rfl
    have hbackslash : c ≠ 0x5c := by
      intro hc
      have halive := hstart.holds.alive
      have hplain := h.inside [] c cs rfl ⟨halive.saves, halive.accepts, halive.news⟩
      simpa [Shell.run, Shell.start] using hplain.escape hc
    have hnewline : c ≠ 0x0a := by
      rintro rfl
      exact absurd hdelim (by decide)
    -- before the first character it does not matter that no word is open
    have hsame : Shell.start.opened.step c = Shell.start.step c := by
      simp [Shell.step, Shell.start, Shell.opened, Shell.push, hbackslash, hhash, hnewline, hdelim]
    have hrun : Shell.start.opened.run (c :: cs) = Shell.start.run (c :: cs) := congrArg (Shell.run · cs) hsame
    have hplain : Plainly env Shell.start.opened (c :: cs) := by
      refine plainly_cons ⟨fun hc => absurd hc hbackslash, fun hc => absurd hc hhash, fun hc => absurd hc hnewline⟩ ?_
      rw [hsame]
      exact h.inside.tail
    have hloop := hstart.loop hplain fun k hk => by
      rw [Nat.zero_add]
      exact Mem.ofBytes_apply _ hk
    rw [read, linesOf, ← hrun]
    cases hlast : (Scan.start (.ofBytes (c :: cs) rest)).loop env (c :: cs).length 0 with
    | error s' =>
      rw [hlast] at hloop
      exact hloop.symm
    | ok s' =>
      rw [hlast, Nat.zero_add] at hloop
      refine hloop.close ?_
      have halive := hloop.holds.alive
      rw [hrun] at halive ⊢
      exact h.last halive

/-- The file `a 'b c' #d`, with a newline. -/
theorem handed_sample :
    (left (read ⟨fun _ => true, fun _ => true, fun _ => true⟩
      [0x61, 0x20, 0x27, 0x62, 0x20, 0x63, 0x27, 0x20, 0x23, 0x64, 0x0a] fun _ => 0)).calls =
        [[[0x61], [0x62, 0x20, 0x63]]] := by
  refine (handed_of_regular _ _ _ ⟨by simp [charDelim], ?_, fun _ => by decide⟩).trans (by decide)
  repeat
    refine plainly_cons ⟨by decide, by decide, by decide⟩ ?_
  exact fun cs _ _ hcs => absurd hcs (by simp)

/-- The file `a\bc`: its word is handed over as `ac`. -/
theorem not_handed : ¬∀ (env : Env) (content : Bytes) (rest : Mem),
    (left (read env content rest)).calls = handed env 0 0 (linesOf content) := by
  intro h
  have hcalls := h ⟨fun _ => true, fun _ => true, fun _ => true⟩ [0x61, 0x5c, 0x62, 0x63] fun _ => 0
  exact absurd hcalls (by decide)

end Conf

end Patty
