import Patty.Conf
import Patty.Lib.Checked

/-! # The text of a configuration file in place

`patty_conf_read` stores behind what it has read: of a character at most one is kept, and of the end of a word the
zero octet. Only the zero octet at the end of the file has no character it takes the place of
(`inPlace_iff`). -/

namespace Patty

namespace Conf

/-- Where the text of a token is. -/
def Token.start (token : Token) : Nat := token.text.getD 0

/-- Where the zero octet behind it is. -/
def Token.stop (token : Token) : Nat := token.start + token.len

/-- The token has a text, and ends in front of another. -/
def Token.Before (token token' : Token) : Prop := token.text.isSome ∧ token.stop < token'.start

/-- A word is being read. -/
def State.InString (state : State) : Prop := state = .string ∨ state = .singleQuote ∨ state = .doubleQuote

instance (state : State) : Decidable state.InString := by
  unfold State.InString
  infer_instance

/-- What holds of an early return and of a late one. -/
def Ends (P Q : Scan → Prop) : Except Scan Scan → Prop
  | .ok s => P s
  | .error s => Q s

variable {P P' Q : Scan → Prop} {r : Except Scan Scan} {f : Scan → Except Scan Scan} {env : Env}
  {s s' : Scan} {old : State} {buf : Mem} {i n size : Nat} {c : UInt8} {escape : Bool} {state : State}

theorem Ends.bind (h : Ends P Q r) (hf : ∀ s, P s → Ends P' Q (f s)) : Ends P' Q (r >>= f) := by
  cases r with
  | ok s => exact hf s h
  | error s => exact h

theorem Ends.mono (h : Ends P Q r) (hP : ∀ s, P s → P' s) : Ends P' Q r := by
  cases r with
  | ok s => exact hP s h
  | error s => exact h

theorem Ends.ok (h : Ends P Q r) (hr : r = .ok s) : P s := by
  rw [hr] at h
  exact h

/-! ## What becomes of a character -/

theorem advance_comment : ¬(advance .comment escape c).1.InString := by
  unfold advance
  dsimp only
  split
  · exact (by decide : ¬State.delim.InString)
  · exact (by decide : ¬State.comment.InString)

/-- Within a word nothing ends. -/
theorem keep_within (hstate : s.state.InString) : s.keep env old i c = .ok s ∨
    s.keep env old i c = .ok { s.put i c with token := { s.token with len := s.token.len + 1 } } := by
  have hend : endOfString old s.state = false := by
    rcases hstate with h | h | h <;> rw [h] <;> cases old <;> rfl
  unfold Scan.keep
  rw [hend]
  split
  · split
    · exact .inl rfl
    · exact .inr rfl
  · exact .inl rfl

/-- At the end of a word it is terminated and saved. -/
theorem keep_ends (hold : old.InString) (hstate : ¬s.state.InString) :
    s.keep env old i c = (s.put i 0).tokenSave env := by
  have hwithin : withinString old s.state = false := by
    cases h : s.state <;> rw [h] at hstate <;> first | rfl | exact absurd (by decide) hstate
  have hend : endOfString old s.state = true := by
    cases h : s.state <;> rw [h] at hstate <;> first
      | exact absurd (by decide) hstate
      | (rcases hold with rfl | rfl | rfl <;> rfl)
  rw [Scan.keep, hwithin, hend]
  rfl

/-- Between words nothing is kept. -/
theorem keep_skips (hold : ¬old.InString) (hstate : ¬s.state.InString) : s.keep env old i c = .ok s := by
  have hwithin : withinString old s.state = false := by
    cases h : s.state <;> rw [h] at hstate <;> first | rfl | exact absurd (by decide) hstate
  have hend : endOfString old s.state = false := by
    cases old <;> first | rfl | exact absurd (by decide) hold
  rw [Scan.keep, hwithin, hend]
  rfl

/-! ## Behind what is read -/

/-- Before the character at `i`: nothing is stored ahead of it, and the words are one behind the other. `word` says
whether one of them is open. -/
structure InPlace (buf : Mem) (i : Nat) (word : Prop) (s : Scan) : Prop where
  behind : s.o ≤ i
  stores : ∀ x ∈ s.stores, x.1 ≤ x.2 ∧ x.2 < i
  unread : ∀ k, i ≤ k → s.buf k = buf k
  apart : s.tokens.Pairwise Token.Before
  text : ∀ token ∈ s.tokens, token.text.isSome
  inside : word → s.token.text.isSome ∧ s.token.stop = s.o ∧ ∀ token ∈ s.tokens, token.stop < s.token.start
  between : ¬word → s.token.len = 0 ∧ ∀ token ∈ s.tokens, token.stop < s.o

/-- What is to be shown of the file as a whole. -/
structure Safe (size : Nat) (s : Scan) : Prop where
  stores : ∀ x ∈ s.stores, x.1 < size ∧ x.1 ≤ x.2
  apart : s.tokens.Pairwise Token.Before

variable {word : Prop}

theorem InPlace.safe (h : InPlace buf i word s) (hi : i ≤ size) : Safe size s where
  stores x hx := by
    have hx := h.stores x hx
    omega
  apart := h.apart

theorem InPlace.succ (h : InPlace buf i word s) : InPlace buf (i + 1) word s :=
  ⟨h.behind.trans (Nat.le_succ i), fun x hx => ⟨(h.stores x hx).1, (h.stores x hx).2.trans (Nat.lt_succ_self i)⟩,
    fun k hk => h.unread k ((Nat.le_succ i).trans hk), h.apart, h.text, h.inside, h.between⟩

theorem InPlace.congr {word' : Prop} (h : InPlace buf i word s) (hiff : word ↔ word') : InPlace buf i word' s := by
  rwa [← propext hiff]

/-- The line, the calls, the escape and the position do not matter. -/
theorem InPlace.same (h : InPlace buf i word s) (state : State) (escape : Bool) (last : UInt8) (lineno column : Nat)
    (line : List Token) (calls : List (List Bytes)) :
    InPlace buf i word { s with state, escape, last, lineno, column, line, calls } :=
  ⟨h.behind, h.stores, h.unread, h.apart, h.text, h.inside, h.between⟩

theorem stores_put (h : InPlace buf i word s) (b : UInt8) : ∀ x ∈ (s.put i b).stores, x.1 ≤ x.2 ∧ x.2 < i + 1 := by
  have hbehind := h.behind
  intro x hx
  rcases List.mem_append.mp hx with hx | hx
  · have hx := h.stores x hx
    omega
  · cases List.mem_singleton.mp hx
    exact ⟨hbehind, Nat.lt_succ_self i⟩

theorem unread_put (h : InPlace buf i word s) (b : UInt8) : ∀ k, i + 1 ≤ k → (s.put i b).buf k = buf k := by
  have hbehind := h.behind
  intro k hk
  refine (if_neg ?_).trans (h.unread k (by omega))
  rw [List.length_singleton]
  omega

/-- The character is kept. -/
theorem InPlace.put (h : InPlace buf i word s) (hword : word) :
    InPlace buf (i + 1) word { s.put i c with token := { s.token with len := s.token.len + 1 } } := by
  obtain ⟨htext, hstop, hbefore⟩ := h.inside hword
  refine ⟨Nat.succ_le_succ h.behind, stores_put h c, unread_put h c, h.apart, h.text,
    fun _ => ⟨htext, ?_, hbefore⟩, fun hnot => absurd hword hnot⟩
  rw [Token.stop] at hstop ⊢
  exact congrArg (· + 1) hstop

variable (env) in
/-- The word is terminated and saved. -/
theorem InPlace.save (h : InPlace buf i word s) (hword : word) (hsize : i < size) :
    Ends (fun s' => InPlace buf (i + 1) False s' ∧ s'.state = s.state) (Safe size) ((s.put i 0).tokenSave env) := by
  obtain ⟨htext, hstop, hbefore⟩ := h.inside hword
  unfold Scan.tokenSave
  split
  · have hstart : s.token.start ≤ s.o := by
      rw [← hstop]
      exact Nat.le_add_right _ _
    refine ⟨⟨Nat.succ_le_succ h.behind, stores_put h 0, unread_put h 0, ?_, ?_, False.elim, fun _ => ⟨rfl, ?_⟩⟩, rfl⟩
    · refine List.pairwise_append.mpr ⟨h.apart, List.pairwise_singleton _ _, fun token htoken token' htoken' => ?_⟩
      cases List.mem_singleton.mp htoken'
      exact ⟨h.text token htoken, hbefore token htoken⟩
    · intro token htoken
      rcases List.mem_append.mp htoken with htoken | htoken
      · exact h.text token htoken
      · cases List.mem_singleton.mp htoken
        exact htext
    · intro token htoken
      change token.stop < s.o + 1
      rcases List.mem_append.mp htoken with htoken | htoken
      · have hlt := hbefore token htoken
        omega
      · cases List.mem_singleton.mp htoken
        exact hstop.trans_lt (Nat.lt_succ_self _)
  · refine ⟨fun x hx => ?_, h.apart⟩
    have hx := stores_put h 0 x hx
    omega

/-- A word starts. -/
theorem InPlace.start (h : InPlace buf i word s) (hword : ¬word) (lineno column : Nat) :
    InPlace buf i True { s with token := ⟨some s.o, lineno, column, 0⟩ } :=
  ⟨h.behind, h.stores, h.unread, h.apart, h.text, fun _ => ⟨rfl, rfl, (h.between hword).2⟩,
    fun hnot => absurd trivial hnot⟩

/-- The end of a line moves nothing. -/
theorem InPlace.endLine (h : InPlace buf i word s) (hi : i ≤ size) :
    Ends (fun s' => InPlace buf i word s' ∧ s'.state = s.state) (Safe size) (s.endLine env c) := by
  have hsame (line : List Token) (calls : List (List Bytes)) : InPlace buf i word { s with line, calls } :=
    h.same s.state s.escape s.last s.lineno s.column line calls
  unfold Scan.endLine
  split
  · have hhandle : Ends (fun s' => ∃ calls, s' = { s with calls }) (Safe size) (s.handle env) := by
      unfold Scan.handle
      split
      · exact ⟨s.calls, rfl⟩
      · dsimp only
        split
        · exact ⟨_, rfl⟩
        · exact (hsame _ _).safe hi
    refine hhandle.bind fun s' hs' => ?_
    obtain ⟨calls, rfl⟩ := hs'
    unfold Scan.newLine
    split
    · exact ⟨hsame _ _, rfl⟩
    split
    · exact ⟨hsame _ _, rfl⟩
    · exact (hsame _ _).safe hi
  · exact ⟨h, rfl⟩

theorem startOfString_eq (hstate : state.InString) : startOfString old state = (old == .delim) := by
  rcases hstate with rfl | rfl | rfl <;> rfl

theorem startToken_eq (hstate : ¬s.state.InString) : s.startToken old = s := by
  unfold Scan.startToken
  cases h : s.state <;> rw [h] at hstate <;> first | exact absurd (by decide) hstate | rfl

/-- A word that is read is open. -/
theorem InPlace.startToken (h : InPlace buf i old.InString s) (hcomment : old = .comment → ¬s.state.InString)
    (hstate : s.state.InString) :
    InPlace buf i s.state.InString (s.startToken old) ∧ (s.startToken old).state = s.state := by
  unfold Scan.startToken
  rw [startOfString_eq hstate]
  split
  · rename_i hdelim
    rw [beq_iff_eq] at hdelim
    subst hdelim
    exact ⟨(h.start (by decide) _ _).congr (iff_of_true trivial hstate), rfl⟩
  · rename_i hdelim
    rw [beq_iff_eq] at hdelim
    have hold : old.InString := by
      cases hold : old with
      | string => decide
      | singleQuote => decide
      | doubleQuote => decide
      | delim => exact absurd hold hdelim
      | comment => exact absurd hstate (hcomment hold)
    exact ⟨h.congr (iff_of_true hold hstate), rfl⟩

variable (env) in
/-- What becomes of a character, by whether a word was open and is open. -/
theorem InPlace.keep (h : InPlace buf i old.InString s) (hcomment : old = .comment → ¬s.state.InString)
    (hsize : i < size) : Ends (fun s' => InPlace buf (i + 1) s.state.InString s' ∧ s'.state = s.state) (Safe size)
      ((s.startToken old).keep env old i c) := by
  by_cases hstate : s.state.InString
  · obtain ⟨hstart, heq⟩ := h.startToken hcomment hstate
    rcases @keep_within env (s.startToken old) old i c (heq ▸ hstate) with hkeep | hkeep
    · rw [hkeep]
      exact ⟨hstart.succ, heq⟩
    · rw [hkeep]
      exact ⟨hstart.put hstate, heq⟩
  rw [startToken_eq hstate]
  by_cases hold : old.InString
  · rw [keep_ends hold hstate]
    exact (h.save env hold hsize).mono fun s' hs' => ⟨hs'.1.congr (iff_of_false id hstate), hs'.2⟩
  · rw [keep_skips hold hstate]
    exact ⟨(h.congr (iff_of_false hold hstate)).succ, rfl⟩

variable (env) in
/-- One character. -/
theorem InPlace.step (h : InPlace buf i s.state.InString s) (hsize : i < size) :
    Ends (fun s' => InPlace buf (i + 1) s'.state.InString s') (Safe size) (s.step env i) := by
  rw [Scan.step]
  dsimp only
  obtain ⟨next, hnext⟩ : ∃ next, next = advance s.state s.escape (s.buf i) := ⟨_, rfl⟩
  have hcomment : s.state = .comment → ¬next.1.InString := by
    intro hstate
    rw [hnext, hstate]
    exact advance_comment
  rw [← hnext]
  obtain ⟨lineno, column, hmove⟩ : ∃ lineno column, { s.move (s.buf i) with state := next.1, escape := next.2 } =
      { s with state := next.1, escape := next.2, lineno, column } := by
    unfold Scan.move
    split <;> exact ⟨_, _, rfl⟩
  rw [hmove]
  have hsame := h.same next.1 next.2 s.last lineno column s.line s.calls
  have hkeep := @InPlace.keep env _ s.state buf i size (s.buf i) hsame hcomment hsize
  refine hkeep.bind fun s' hs' => ?_
  refine (hs'.1.endLine hsize).bind fun s'' hs'' => ?_
  rw [← hs'.2, ← hs''.2] at hs''
  exact hs''.1.same s''.state _ _ _ _ _ _

variable (env) in
theorem InPlace.loop (h : InPlace buf i s.state.InString s) (hsize : i + n ≤ size) :
    Ends (fun s' => InPlace buf (i + n) s'.state.InString s') (Safe size) (s.loop env n i) := by
  induction n generalizing i s with
  | zero => exact h
  | succ n ih =>
    rw [Scan.loop]
    refine (h.step env (by omega)).bind fun s' hs' => ?_
    have hrest := ih hs' (by omega)
    rwa [Nat.add_assoc, Nat.add_comm 1 n] at hrest

theorem start_inPlace (buf : Mem) : InPlace buf 0 (Scan.start buf).state.InString (Scan.start buf) where
  behind := le_rfl
  stores _ hx := absurd hx List.not_mem_nil
  unread _ _ := rfl
  apart := .nil
  text _ htoken := absurd htoken List.not_mem_nil
  inside _ := ⟨rfl, rfl, fun _ htoken => absurd htoken List.not_mem_nil⟩
  between hnot := absurd (.inl rfl) hnot

/-! ## The end of the file -/

theorem handle_left : (left (s.handle env)).stores = s.stores ∧ (left (s.handle env)).tokens = s.tokens := by
  unfold Scan.handle
  split
  · exact ⟨rfl, rfl⟩
  dsimp only
  split <;> exact ⟨rfl, rfl⟩

/-- The last zero octet is in the file unless all characters were kept. -/
theorem close_safe (h : InPlace buf size s.state.InString s) :
    Safe size (left (s.close env size)) ↔ ¬(s.token.len ≠ 0 ∧ s.o = size) := by
  have hbehind := h.behind
  rw [Scan.close]
  by_cases hlen : s.token.len = 0
  · rw [if_neg (not_not.mpr hlen), Except.ok_bind]
    obtain ⟨hstores, htokens⟩ := @handle_left env s
    have hsafe := h.safe le_rfl
    refine iff_of_true ⟨?_, ?_⟩ fun hfull => hfull.1 hlen
    · rw [hstores]
      exact hsafe.stores
    · rw [htokens]
      exact hsafe.apart
  rw [if_pos hlen]
  have hword : s.state.InString := by
    by_contra hnot
    exact hlen (h.between hnot).1
  have hstores : (left ((s.put size 0).tokenSave env >>= (·.handle env))).stores = s.stores ++ [(s.o, size)] := by
    unfold Scan.tokenSave
    split
    · exact handle_left.1
    · rfl
  have hapart : (left ((s.put size 0).tokenSave env >>= (·.handle env))).tokens.Pairwise Token.Before := by
    have hsave := h.save env hword (Nat.lt_succ_self size)
    revert hsave
    cases (s.put size 0).tokenSave env with
    | ok s' =>
      intro hsave
      rw [Except.ok_bind, handle_left.2]
      exact hsave.1.apart
    | error s' => exact fun hsave => hsave.apart
  constructor
  · rintro hsafe ⟨-, hfull⟩
    have hlast := hsafe.stores (s.o, size) (by rw [hstores]; simp)
    exact absurd hlast.1 (by omega)
  · intro hroom
    refine ⟨fun x hx => ?_, hapart⟩
    rw [hstores] at hx
    rcases List.mem_append.mp hx with hx | hx
    · exact (h.safe le_rfl).stores x hx
    · cases List.mem_singleton.mp hx
      exact ⟨lt_of_le_of_ne hbehind fun hfull => hroom ⟨hlen, hfull⟩, hbehind⟩

/-- Every character is kept, and a word is open at the end. -/
def Fills (env : Env) (n i : Nat) (s : Scan) : Prop :=
  ∃ s', s.loop env n i = .ok s' ∧ s'.token.len ≠ 0 ∧ s'.o = i + n

theorem read_safe (env : Env) (content : Bytes) (rest : Mem) :
    Safe content.length (left (read env content rest)) ↔
      ¬Fills env content.length 0 (Scan.start (.ofBytes content rest)) := by
  have hloop := (start_inPlace (.ofBytes content rest)).loop env (Nat.zero_add content.length).le
  rw [read, Fills]
  cases hrun : (Scan.start (.ofBytes content rest)).loop env content.length 0 with
  | error s =>
    rw [hrun] at hloop
    exact iff_of_true hloop fun ⟨_, h, _⟩ => nomatch h
  | ok s =>
    rw [hrun, Nat.zero_add] at hloop
    rw [Except.ok_bind, close_safe hloop, Nat.zero_add]
    refine not_congr ⟨fun h => ⟨s, rfl, h⟩, ?_⟩
    rintro ⟨s', h, hs'⟩
    cases h
    exact hs'

/-! ## Files of which every character is kept -/

/-- The characters that are not kept where they have a meaning. -/
def special (c : UInt8) : Bool := c == 0x5c || c == 0x27 || c == 0x22 || c == 0x23

/-- Words with one delimiter between them, and a word at the end. `between` says that a delimiter is in front. -/
def tight : Bool → Bytes → Bool
  | between, [] => !between
  | between, c :: cs => !special c && if charDelim c then !between && tight true cs else tight false cs

/-- There is memory for each word of such a file and for each line, and each line is accepted, where `t` words and
`l` lines have been read before. -/
structure Passes (env : Env) (t l : Nat) (cs : Bytes) : Prop where
  saves : ∀ k < cs.countP charDelim, env.saves (t + k)
  accepts : ∀ k < cs.count 0x0a, env.accepts (l + k)
  news : ∀ k < cs.count 0x0a, env.news (l + k)

theorem handle_ok (h : s.handle env = .ok s') : ∃ calls, s' = { s with calls } := by
  unfold Scan.handle at h
  dsimp only at h
  split at h
  · cases h
    exact ⟨_, rfl⟩
  split at h <;> cases h
  exact ⟨_, rfl⟩

theorem newLine_ok (h : s.newLine env = .ok s') : ∃ line, s' = { s with line } := by
  unfold Scan.newLine at h
  split at h
  · cases h
    exact ⟨_, rfl⟩
  split at h <;> cases h
  exact ⟨_, rfl⟩

theorem endLine_ok (h : s.endLine env c = .ok s') : ∃ line calls, s' = { s with line, calls } := by
  unfold Scan.endLine at h
  split at h
  · obtain ⟨s₁, hhandle, hnew⟩ := Except.bind_eq_ok h
    obtain ⟨calls, rfl⟩ := handle_ok hhandle
    obtain ⟨line, rfl⟩ := newLine_ok hnew
    exact ⟨line, calls, rfl⟩
  · cases h
    exact ⟨_, _, rfl⟩

theorem keep_o (h : s.keep env old i c = .ok s') : s'.o ≤ s.o + 1 ∧ s'.state = s.state := by
  by_cases hstate : s.state.InString
  · rcases @keep_within env s old i c hstate with hkeep | hkeep
    · cases hkeep.symm.trans h
      exact ⟨Nat.le_succ _, rfl⟩
    · cases hkeep.symm.trans h
      exact ⟨le_rfl, rfl⟩
  by_cases hold : old.InString
  · rw [keep_ends hold hstate, Scan.tokenSave] at h
    split at h
    · cases h
      exact ⟨le_rfl, rfl⟩
    · cases h
  · cases (keep_skips hold hstate).symm.trans h
    exact ⟨Nat.le_succ _, rfl⟩

/-- The variables before the character `c` is kept or not. -/
def Scan.moved (s : Scan) (c : UInt8) : Scan :=
  { s.move c with state := (advance s.state s.escape c).1, escape := (advance s.state s.escape c).2 }

theorem step_eq (env : Env) (i : Nat) (s : Scan) : s.step env i = (do
    let s' ← ((s.moved (s.buf i)).startToken s.state).keep env s.state i (s.buf i)
    let s' ← s'.endLine env (s.buf i)
    .ok (s'.finish (s.buf i))) := rfl

theorem moved_eq (s : Scan) (c : UInt8) : ∃ lineno column, s.moved c =
    { s with state := (advance s.state s.escape c).1, escape := (advance s.state s.escape c).2, lineno, column } := by
  unfold Scan.moved Scan.move
  split <;> exact ⟨_, _, rfl⟩

theorem startToken_o : (s.startToken old).o = s.o := by
  unfold Scan.startToken
  split <;> rfl

theorem step_keep (h : s.step env i = .ok s') :
    ∃ s₁, ((s.moved (s.buf i)).startToken s.state).keep env s.state i (s.buf i) = .ok s₁ ∧ s'.o = s₁.o ∧
      s'.state = s₁.state ∧ s'.token = s₁.token := by
  rw [step_eq] at h
  obtain ⟨s₁, hkeep, h⟩ := Except.bind_eq_ok h
  obtain ⟨s₂, hend, h⟩ := Except.bind_eq_ok h
  cases h
  obtain ⟨line, calls, rfl⟩ := endLine_ok hend
  exact ⟨s₁, hkeep, rfl, rfl, rfl⟩

theorem step_o (h : s.step env i = .ok s') : s'.o ≤ s.o + 1 := by
  obtain ⟨s₁, hkeep, ho, -⟩ := step_keep h
  obtain ⟨lineno, column, hmoved⟩ := moved_eq s (s.buf i)
  have hle := (keep_o hkeep).1
  rwa [startToken_o, hmoved, ← ho] at hle

theorem loop_o (h : s.loop env n i = .ok s') : s'.o ≤ s.o + n := by
  induction n generalizing i s with
  | zero =>
    cases h
    exact le_rfl
  | succ n ih =>
    obtain ⟨s₁, hstep, h⟩ := Except.bind_eq_ok h
    have hone := step_o hstep
    have hrest := ih h
    omega

/-- A character that is not kept is not made up for. -/
theorem not_fills (hlag : s.o < i) : ¬Fills env n i s := by
  rintro ⟨s', hloop, -, hfull⟩
  have hle := loop_o hloop
  omega

theorem not_special (h : special c = false) : c ≠ 0x5c ∧ c ≠ 0x27 ∧ c ≠ 0x22 ∧ c ≠ 0x23 := by
  simpa [special, and_assoc] using h

theorem charDelim_newline (h : charDelim c = false) : (c == 0x0a) = false := by
  rw [charDelim, Bool.or_eq_false_iff, Bool.or_eq_false_iff, Bool.or_eq_false_iff] at h
  exact h.1.2

/-- A character without a meaning is kept. -/
theorem step_plain (hstate : s.state = .string ∨ s.state = .delim) (hescape : s.escape = false) (hc : s.buf i = c)
    (hspecial : special c = false) (hdelim : charDelim c = false) : ∃ s', s.step env i = .ok s' ∧ s'.state = .string ∧
      s'.escape = false ∧ s'.o = s.o + 1 ∧ s'.token.len ≠ 0 ∧ s'.tokens = s.tokens ∧ s'.calls = s.calls := by
  obtain ⟨hbackslash, hsingle, hdouble, hhash⟩ := not_special hspecial
  have hnext : advance s.state s.escape c = (.string, false) := by
    rcases hstate with h | h <;> simp [advance, h, hescape, hbackslash, hsingle, hdouble, hhash, hdelim]
  have hwithin : withinString s.state .string = true := by
    rcases hstate with h | h <;> rw [h] <;> rfl
  obtain ⟨lineno, column, hmoved⟩ := moved_eq s c
  obtain ⟨s₁, hs₁, hstate₁, hescape₁, ho, htokens, hcalls⟩ : ∃ s₁, (s.moved c).startToken s.state = s₁ ∧
      s₁.state = .string ∧ s₁.escape = false ∧ s₁.o = s.o ∧ s₁.tokens = s.tokens ∧ s₁.calls = s.calls := by
    rw [hmoved, hnext]
    unfold Scan.startToken
    split <;> exact ⟨_, rfl, rfl, rfl, rfl, rfl, rfl⟩
  have hkeep : s₁.keep env s.state i c =
      .ok { s₁.put i c with token := { s₁.token with len := s₁.token.len + 1 } } := by
    rw [Scan.keep, hstate₁, hwithin, hescape₁]
    rfl
  have hend {s' : Scan} : s'.endLine env c = .ok s' := by
    rw [Scan.endLine, charDelim_newline hdelim]
    rfl
  rw [step_eq, hc, hs₁, hkeep, Except.ok_bind, hend, Except.ok_bind]
  refine ⟨_, rfl, hstate₁, ?_, congrArg (· + 1) ho, Nat.succ_ne_zero _, htokens, hcalls⟩
  show (s₁.escape && s₁.last != 0x5c) = false
  rw [hescape₁]
  rfl

theorem charDelim_plain (h : charDelim c) : c ≠ 0x5c := by
  rintro rfl
  exact absurd h (by decide)

/-- The end of a line that has a word. -/
theorem endLine_spec (hescape : s.escape = false) (hline : s.line ≠ []) :
    ((∃ s', s.endLine env c = .ok s') ↔ (c = 0x0a → env.accepts s.calls.length ∧ env.news s.calls.length)) ∧
    ∀ s', s.endLine env c = .ok s' → s'.calls.length = s.calls.length + if c = 0x0a then 1 else 0 := by
  have hne : s.line.length ≠ 0 := fun h => hline (List.length_eq_zero_iff.mp h)
  by_cases hc : c = 0x0a
  · subst hc
    have hend : s.endLine env 0x0a = (s.handle env >>= fun s' => s'.newLine env) := by
      rw [Scan.endLine, hescape]
      rfl
    have hhandle : s.handle env = if env.accepts s.calls.length then
        .ok { s with calls := s.calls ++ [s.line.map (·.word s.buf)] }
        else .error { s with calls := s.calls ++ [s.line.map (·.word s.buf)] } := if_neg hne
    have hcalls : (s.calls ++ [s.line.map (·.word s.buf)]).length = s.calls.length + 1 := List.length_append
    rw [hend, hhandle, if_pos rfl]
    by_cases haccepts : env.accepts s.calls.length
    · rw [if_pos haccepts, Except.ok_bind, Scan.newLine, if_neg hne, hcalls, Nat.add_sub_cancel]
      by_cases hnews : env.news s.calls.length
      · rw [if_pos hnews]
        refine ⟨iff_of_true ⟨_, rfl⟩ fun _ => ⟨haccepts, hnews⟩, fun s' h => ?_⟩
        cases h
        exact hcalls
      · rw [if_neg hnews]
        exact ⟨iff_of_false (fun ⟨_, h⟩ => nomatch h) fun h => hnews (h rfl).2, fun _ h => nomatch h⟩
    · rw [if_neg haccepts]
      exact ⟨iff_of_false (fun ⟨_, h⟩ => nomatch h) fun h => haccepts (h rfl).1, fun _ h => nomatch h⟩
  · have hend : s.endLine env c = .ok s := by simp [Scan.endLine, hc]
    rw [hend, if_neg hc]
    refine ⟨iff_of_true ⟨_, rfl⟩ fun h => absurd h hc, fun s' h => ?_⟩
    cases h
    rfl

/-- A delimiter ends a word, as long as there is memory for it, and the line can be had. -/
theorem step_delim (hstate : s.state = .string) (hescape : s.escape = false) (hc : s.buf i = c) (hdelim : charDelim c) :
    ((∃ s', s.step env i = .ok s') ↔ env.saves s.tokens.length ∧
      (c = 0x0a → env.accepts s.calls.length ∧ env.news s.calls.length)) ∧
    ∀ s', s.step env i = .ok s' → s'.state = .delim ∧ s'.escape = false ∧ s'.o = s.o + 1 ∧
      s'.tokens.length = s.tokens.length + 1 ∧ s'.calls.length = s.calls.length + if c = 0x0a then 1 else 0 := by
  have hnext : advance s.state s.escape c = (.delim, false) := by
    simp [advance, hstate, hescape, charDelim_plain hdelim, hdelim]
  obtain ⟨lineno, column, hmoved⟩ := moved_eq s c
  rw [hnext] at hmoved
  have hstart : (s.moved c).startToken s.state = s.moved c :=
    startToken_eq (by rw [hmoved]; exact (by decide : ¬State.delim.InString))
  have hkeep : (s.moved c).keep env s.state i c = ((s.moved c).put i 0).tokenSave env :=
    keep_ends (by rw [hstate]; decide) (by rw [hmoved]; exact (by decide : ¬State.delim.InString))
  have hsave : ((s.moved c).put i 0).tokenSave env = if env.saves s.tokens.length then
      .ok { (s.moved c).put i 0 with
        tokens := s.tokens ++ [s.token], line := s.line ++ [s.token], token := .zero }
      else .error ((s.moved c).put i 0) := by
    rw [hmoved]
    rfl
  rw [step_eq, hc, hstart, hkeep, hsave]
  by_cases hsaves : env.saves s.tokens.length
  · obtain ⟨s₁, hs₁⟩ : ∃ s₁, s₁ = { (s.moved c).put i 0 with
        tokens := s.tokens ++ [s.token], line := s.line ++ [s.token], token := .zero } := ⟨_, rfl⟩
    have hcalls : s₁.calls = s.calls := by rw [hs₁, hmoved]; rfl
    obtain ⟨hend, hlength⟩ := @endLine_spec env s₁ c (by rw [hs₁, hmoved]; rfl) (by rw [hs₁]; simp)
    rw [hcalls] at hend hlength
    rw [if_pos hsaves, Except.ok_bind, ← hs₁]
    constructor
    · rw [and_iff_right hsaves, ← hend]
      refine ⟨fun ⟨s', h⟩ => ?_, fun ⟨s', h⟩ => ?_⟩
      · obtain ⟨s₂, h, -⟩ := Except.bind_eq_ok h
        exact ⟨s₂, h⟩
      · rw [h]
        exact ⟨_, rfl⟩
    · intro s' h
      obtain ⟨s₂, hs₂, hfinish⟩ := Except.bind_eq_ok h
      cases hfinish
      have hcount := hlength s₂ hs₂
      obtain ⟨line, calls, rfl⟩ := endLine_ok hs₂
      subst hs₁
      rw [hmoved] at hcount ⊢
      exact ⟨rfl, rfl, rfl, List.length_append, hcount⟩
  · rw [if_neg hsaves]
    exact ⟨iff_of_false (fun ⟨_, h⟩ => nomatch h) fun h => hsaves h.1, fun _ h => nomatch h⟩

theorem startToken_fields : (s.startToken old).state = s.state ∧ (s.startToken old).escape = s.escape := by
  unfold Scan.startToken
  split <;> exact ⟨rfl, rfl⟩

/-- What is not kept. -/
theorem keep_lost (hlost : s.escape ∨ withinString old s.state = false) (hend : endOfString old s.state = false) :
    s.keep env old i c = .ok s := by
  rw [Scan.keep, hend]
  split
  · rename_i hwithin
    rcases hlost with hescape | hnot
    · rw [if_pos hescape]
    · exact absurd (hwithin.symm.trans hnot) (by decide)
  · rfl

/-- Any other character is not kept, or starts a comment. -/
theorem step_lost (hstate : s.state = .string ∨ s.state = .delim) (hescape : s.escape = false) (hc : s.buf i = c)
    (hlost : special c ∨ charDelim c ∧ s.state = .delim) (h : s.step env i = .ok s') :
    s'.o = s.o ∨ s'.state = .comment := by
  obtain ⟨s₁, hkeep, ho, hs', -⟩ := step_keep h
  obtain ⟨hsame, hsame'⟩ := @startToken_fields (s.moved c) s.state
  obtain ⟨lineno, column, hmoved⟩ := moved_eq s c
  rw [hc] at hkeep
  have hnotkept (hwithin : (advance s.state s.escape c).2 ∨
      withinString s.state (advance s.state s.escape c).1 = false)
      (hend : endOfString s.state (advance s.state s.escape c).1 = false) : s'.o = s.o := by
    have hok := @keep_lost env ((s.moved c).startToken s.state) s.state i c
      (by rw [hsame, hsame', hmoved]; exact hwithin) (by rw [hsame, hmoved]; exact hend)
    cases hkeep.symm.trans hok
    rw [ho, startToken_o, hmoved]
  have hcomment (hnext : (advance s.state s.escape c).1 = .comment) : s'.state = .comment := by
    rw [hs', (keep_o hkeep).2, hsame, hmoved]
    exact hnext
  rcases hlost with hspecial | ⟨hdelim, hstate⟩
  · simp only [special, Bool.or_eq_true, beq_iff_eq] at hspecial
    rcases hspecial with ((rfl | rfl) | rfl) | rfl
    · refine .inl (hnotkept (.inl ?_) ?_) <;> rcases hstate with h | h <;> rw [h, hescape] <;> rfl
    · refine .inl (hnotkept (.inr ?_) ?_) <;> rcases hstate with h | h <;> rw [h, hescape] <;> rfl
    · refine .inl (hnotkept (.inr ?_) ?_) <;> rcases hstate with h | h <;> rw [h, hescape] <;> rfl
    · refine .inr (hcomment ?_)
      rcases hstate with h | h <;> rw [h, hescape] <;> rfl
  · have hnext : advance s.state s.escape c = (.delim, false) := by
      simp only [charDelim, Bool.or_eq_true, beq_iff_eq] at hdelim
      rw [hstate, hescape]
      rcases hdelim with ((rfl | rfl) | rfl) | rfl <;> rfl
    exact .inl (hnotkept (.inr (by rw [hnext]; rfl)) (by rw [hnext, hstate]; rfl))

/-- In a comment nothing is kept. -/
theorem step_comment (hstate : s.state = .comment) (h : s.step env i = .ok s') : s'.o = s.o := by
  obtain ⟨s₁, hkeep, ho, -⟩ := step_keep h
  obtain ⟨lineno, column, hmoved⟩ := moved_eq s (s.buf i)
  have hnext : ¬(s.moved (s.buf i)).state.InString := by
    rw [hmoved, hstate]
    exact advance_comment
  rw [startToken_eq hnext, keep_skips (by rw [hstate]; decide) hnext] at hkeep
  cases hkeep
  rw [ho, hmoved]

theorem comment_not_fills (h : InPlace buf i s.state.InString s) (hstate : s.state = .comment) :
    ¬Fills env n i s := by
  rintro ⟨s', hloop, hlen, hfull⟩
  cases n with
  | zero =>
    cases hloop
    exact hlen (h.between (by rw [hstate]; decide)).1
  | succ n =>
    obtain ⟨s₁, hstep, hloop⟩ := Except.bind_eq_ok hloop
    have ho := step_comment hstate hstep
    have hle := loop_o hloop
    have hbehind := h.behind
    omega

theorem fills_succ : Fills env (n + 1) i s ↔ ∃ s', s.step env i = .ok s' ∧ Fills env n (i + 1) s' := by
  constructor
  · rintro ⟨s', hloop, hlen, hfull⟩
    obtain ⟨s₁, hstep, hloop⟩ := Except.bind_eq_ok hloop
    exact ⟨s₁, hstep, s', hloop, hlen, by omega⟩
  · rintro ⟨s₁, hstep, s', hloop, hlen, hfull⟩
    refine ⟨s', ?_, hlen, by omega⟩
    rw [Scan.loop, hstep]
    exact hloop

theorem passes_nil {t l : Nat} : Passes env t l [] :=
  ⟨fun _ h => absurd h (Nat.not_lt_zero _), fun _ h => absurd h (Nat.not_lt_zero _),
    fun _ h => absurd h (Nat.not_lt_zero _)⟩

theorem passes_plain {t l : Nat} {cs : Bytes} (hdelim : charDelim c = false) :
    Passes env t l (c :: cs) ↔ Passes env t l cs := by
  have hwords : (c :: cs).countP charDelim = cs.countP charDelim := List.countP_cons_of_neg (by simp [hdelim])
  have hlines : (c :: cs).count 0x0a = cs.count 0x0a :=
    List.count_cons_of_ne (by simpa using charDelim_newline hdelim)
  constructor
  · rintro ⟨hsaves, haccepts, hnews⟩
    rw [hwords] at hsaves
    rw [hlines] at haccepts hnews
    exact ⟨hsaves, haccepts, hnews⟩
  · rintro ⟨hsaves, haccepts, hnews⟩
    rw [← hwords] at hsaves
    rw [← hlines] at haccepts hnews
    exact ⟨hsaves, haccepts, hnews⟩

/-- The first of them, and the others. -/
theorem forall_lt_succ {p : Nat → Bool} {t n : Nat} :
    (∀ k < n + 1, p (t + k)) ↔ p t ∧ ∀ k < n, p (t + 1 + k) := by
  constructor
  · intro h
    refine ⟨h 0 (Nat.succ_pos n), fun k hk => ?_⟩
    rw [Nat.add_assoc, Nat.add_comm 1]
    exact h (k + 1) (Nat.succ_lt_succ hk)
  · rintro ⟨hfirst, hrest⟩ k hk
    cases k with
    | zero => exact hfirst
    | succ k =>
      rw [← Nat.add_assoc, Nat.add_right_comm]
      exact hrest k (Nat.lt_of_succ_lt_succ hk)

theorem passes_delim {t l : Nat} {cs : Bytes} (hdelim : charDelim c) : Passes env t l (c :: cs) ↔
    (env.saves t ∧ (c = 0x0a → env.accepts l ∧ env.news l)) ∧
      Passes env (t + 1) (l + if c = 0x0a then 1 else 0) cs := by
  have hwords : (c :: cs).countP charDelim = cs.countP charDelim + 1 := List.countP_cons_of_pos hdelim
  by_cases hc : c = 0x0a
  · subst hc
    have hlines : (0x0a :: cs).count 0x0a = cs.count 0x0a + 1 := List.count_cons_self
    rw [if_pos rfl]
    constructor
    · rintro ⟨hsaves, haccepts, hnews⟩
      rw [hwords, forall_lt_succ] at hsaves
      rw [hlines, forall_lt_succ] at haccepts hnews
      exact ⟨⟨hsaves.1, fun _ => ⟨haccepts.1, hnews.1⟩⟩, hsaves.2, haccepts.2, hnews.2⟩
    · rintro ⟨⟨hsave, hline⟩, hsaves, haccepts, hnews⟩
      refine ⟨?_, ?_, ?_⟩
      · rw [hwords, forall_lt_succ]
        exact ⟨hsave, hsaves⟩
      · rw [hlines, forall_lt_succ]
        exact ⟨(hline rfl).1, haccepts⟩
      · rw [hlines, forall_lt_succ]
        exact ⟨(hline rfl).2, hnews⟩
  · have hlines : (c :: cs).count 0x0a = cs.count 0x0a := List.count_cons_of_ne hc
    rw [if_neg hc]
    constructor
    · rintro ⟨hsaves, haccepts, hnews⟩
      rw [hwords, forall_lt_succ] at hsaves
      rw [hlines] at haccepts hnews
      exact ⟨⟨hsaves.1, fun h => absurd h hc⟩, hsaves.2, haccepts, hnews⟩
    · rintro ⟨⟨hsave, -⟩, hsaves, haccepts, hnews⟩
      refine ⟨?_, ?_, ?_⟩
      · rw [hwords, forall_lt_succ]
        exact ⟨hsave, hsaves⟩
      · rwa [hlines]
      · rwa [hlines]

/-- As long as all characters have been kept, the rest decides. -/
theorem fills_iff {cs : Bytes} (h : InPlace buf i s.state.InString s) (hfull : s.o = i)
    (hstate : s.state = .string ∨ s.state = .delim) (hescape : s.escape = false)
    (hend : cs = [] → (s.token.len ≠ 0 ↔ s.state = .string)) (hread : ∀ k (hk : k < cs.length), buf (i + k) = cs[k]) :
    Fills env cs.length i s ↔ tight (s.state == .delim) cs ∧ Passes env s.tokens.length s.calls.length cs := by
  induction cs generalizing i s with
  | nil =>
    rw [and_iff_left passes_nil, tight]
    have hlen := hend rfl
    refine (?_ : _ ↔ s.token.len ≠ 0).trans (hlen.trans ?_)
    · refine ⟨fun ⟨s', hloop, hlen, _⟩ => ?_, fun hlen => ⟨s, rfl, hlen, hfull⟩⟩
      cases hloop
      exact hlen
    · rcases hstate with h | h <;> rw [h] <;> decide
  | cons c cs ih =>
    have hc : s.buf i = c := (h.unread i le_rfl).trans (hread 0 (Nat.succ_pos _))
    have hread' (k : Nat) (hk : k < cs.length) : buf (i + 1 + k) = cs[k] := by
      have hnext : i + 1 + k = i + (k + 1) := by omega
      rw [hnext]
      exact hread (k + 1) (Nat.succ_lt_succ hk)
    have hstep := h.step env (Nat.lt_succ_self i)
    have hlost (hlost : special c ∨ charDelim c ∧ s.state = .delim) : ¬Fills env (cs.length + 1) i s := by
      rw [fills_succ]
      rintro ⟨s', hs', hfills⟩
      rcases step_lost hstate hescape hc hlost hs' with ho | hcomment
      · exact not_fills (by omega) hfills
      · exact comment_not_fills (hstep.ok hs') hcomment hfills
    rw [List.length_cons, tight]
    cases hspecial : special c with
    | true => exact iff_of_false (hlost (.inl hspecial)) fun h => absurd h.1 (by simp)
    | false =>
      cases hdelim : charDelim c with
      | true =>
        rcases hstate with hstring | hbetween
        · obtain ⟨hgoes, hleaves⟩ := @step_delim env s i c hstring hescape hc hdelim
          have hrest (s' : Scan) (hs' : s.step env i = .ok s') : Fills env cs.length (i + 1) s' ↔ tight true cs ∧
              Passes env (s.tokens.length + 1) (s.calls.length + if c = 0x0a then 1 else 0) cs := by
            obtain ⟨hstate', hescape', ho, htokens, hcalls⟩ := hleaves s' hs'
            have hplace := hstep.ok hs'
            have hiff := ih hplace (by omega) (.inr hstate') hescape' (fun _ => ?_) hread'
            · rwa [hstate', htokens, hcalls] at hiff
            · rw [hstate']
              exact iff_of_false (fun hlen => hlen (hplace.between (by rw [hstate']; decide)).1) (by decide)
          rw [fills_succ, passes_delim hdelim, ← hgoes, hstring]
          constructor
          · rintro ⟨s', hs', hfills⟩
            obtain ⟨htight, hpasses⟩ := (hrest s' hs').mp hfills
            exact ⟨by simpa using htight, ⟨s', hs'⟩, hpasses⟩
          · rintro ⟨htight, ⟨s', hs'⟩, hpasses⟩
            exact ⟨s', hs', (hrest s' hs').mpr ⟨by simpa using htight, hpasses⟩⟩
        · refine iff_of_false (hlost (.inr ⟨hdelim, hbetween⟩)) fun h => ?_
          rw [hbetween] at h
          exact absurd h.1 (by simp)
      | false =>
        obtain ⟨s', hs', hstate', hescape', ho, hlen, htokens, hcalls⟩ :=
          @step_plain env s i c hstate hescape hc hspecial hdelim
        have hiff := ih (hstep.ok hs') (by omega) (.inl hstate') hescape'
          (fun _ => iff_of_true hlen hstate') hread'
        rw [htokens, hcalls, hstate'] at hiff
        rw [passes_plain hdelim, fills_succ]
        refine (?_ : _ ↔ Fills env cs.length (i + 1) s').trans (hiff.trans ?_)
        · refine ⟨fun ⟨s₁, hs₁, hfills⟩ => ?_, fun hfills => ⟨s', hs', hfills⟩⟩
          cases hs'.symm.trans hs₁
          exact hfills
        · simp only [Bool.not_false, Bool.true_and, Bool.false_eq_true, if_false]
          exact Iff.rfl

/-- Each store goes to an index of the file, and no further than what is read, and the words are apart, just if it is
empty, or a character of it is not kept, or the run does not get to its end. -/
theorem inPlace_iff (env : Env) (content : Bytes) (rest : Mem) : Safe content.length (left (read env content rest)) ↔
    ¬(content ≠ [] ∧ tight false content ∧ Passes env 0 0 content) := by
  rw [read_safe]
  by_cases hempty : content = []
  · subst hempty
    refine iff_of_true ?_ fun h => h.1 rfl
    rintro ⟨s', hloop, hlen, -⟩
    cases hloop
    exact hlen rfl
  rw [and_iff_right hempty]
  refine not_congr (fills_iff (start_inPlace _) rfl (.inl rfl) rfl (fun h => absurd h hempty) fun k hk => ?_)
  rw [Nat.zero_add]
  exact Mem.ofBytes_apply _ hk

/-- The file `a`: the zero octet behind its word is stored behind the file. -/
theorem not_inPlace : ¬∀ (env : Env) (content : Bytes) (rest : Mem),
    Safe content.length (left (read env content rest)) := by
  intro h
  have hsafe := h ⟨fun _ => true, fun _ => true, fun _ => true⟩ [0x61] fun _ => 0
  exact absurd (hsafe.stores (1, 1) (by decide)).1 (by decide)

end Conf

end Patty
