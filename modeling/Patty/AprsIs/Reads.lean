import Patty.AprsIs

/-! # Reads of the APRS-IS decoder

What an octet does depends on the decoder without its read buffer. `feed` takes octets that neither end a
line nor are refused; a line is fed up to the octet that ends it, in as many reads as it takes, and the
last of these reads gives what that octet does (`handleReads_line`). -/

namespace Patty

namespace AprsIs

variable {aprs aprs' : AprsIs} {len i j : Nat} {c : UInt8} {rx rx' bs bs' rest r pre post : Bytes}
  {out : Mem}

/-- The decoder in a read of `rx`, with the next octet at `i`. -/
def inRead (aprs : AprsIs) (rx : Bytes) (i : Nat) : AprsIs := { aprs with rxBuf := rx, offsetI := i }

def Fed.inRead (rx : Bytes) (i : Nat) : Fed → Fed
  | .more aprs => .more (aprs.inRead rx i)
  | .done aprs => .done (aprs.inRead rx i)
  | .packet aprs => .packet (aprs.inRead rx i)
  | .drop aprs => .drop (aprs.inRead rx i)

@[simp] theorem inRead_inRead : (aprs.inRead rx i).inRead rx' j = aprs.inRead rx' j := rfl

@[simp] theorem inRead_state : (aprs.inRead rx i).state = aprs.state := rfl

theorem saveCall_inRead (addr : Addr) (save : Addr → Frame) :
    (aprs.inRead rx i).saveCall addr save = (aprs.saveCall addr save).inRead rx i := by
  unfold saveCall
  have hcall : (aprs.inRead rx i).call = aprs.call := rfl
  rw [hcall]
  cases pton aprs.call addr <;> rfl

theorem endField_inRead (state : AprsIsState) :
    (aprs.inRead rx i).endField state = (aprs.endField state).inRead rx i := by
  have hsave (addr : Addr) (save : Addr → Frame) :
      ({ aprs with state }.inRead rx i).saveCall addr save =
        ({ aprs with state }.saveCall addr save).inRead rx i := saveCall_inRead addr save
  have hframe : (aprs.inRead rx i).frame = aprs.frame := rfl
  unfold endField
  simp only [hframe]
  split_ifs
  · rfl
  · exact hsave ..
  · exact hsave ..

/-- The read is not looked at. -/
theorem drainByte_inRead : (aprs.inRead rx i).drainByte c = (aprs.drainByte c).inRead rx i := by
  unfold drainByte
  rw [inRead_state]
  cases aprs.state with
  | header =>
    have hframe : (aprs.inRead rx i).frame = aprs.frame := rfl
    have hcall : (aprs.inRead rx i).call = aprs.call := rfl
    simp only [hframe, hcall]
    split_ifs <;> first | rfl | exact saveCall_inRead .. | exact endField_inRead ..
  | comment => dsimp only; split_ifs <;> rfl
  | body =>
    have hlen : (aprs.inRead rx i).body = aprs.body := rfl
    dsimp only
    rw [hlen]
    split_ifs <;> rfl
  | complete => rfl

/-- The decoder after octets that it goes on with. -/
def feed : AprsIs → Bytes → Option AprsIs
  | aprs, [] => some aprs
  | aprs, c :: bs =>
    match aprs.drainByte c with
    | .more aprs => feed aprs bs
    | _ => none

@[simp] theorem feed_nil : aprs.feed [] = some aprs := rfl

theorem feed_cons (h : aprs.drainByte c = .more aprs') : aprs.feed (c :: bs) = aprs'.feed bs := by
  rw [feed, h]

theorem feed_cons_iff : aprs.feed (c :: bs) = some aprs' ↔
    ∃ a, aprs.drainByte c = .more a ∧ a.feed bs = some aprs' := by
  rw [feed]
  constructor
  · intro h
    split at h
    · exact ⟨_, ‹_›, h⟩
    · cases h
  · rintro ⟨a, ha, h⟩
    rw [ha]
    exact h

theorem feed_append : aprs.feed (bs ++ bs') = (aprs.feed bs).bind (·.feed bs') := by
  induction bs generalizing aprs with
  | nil => rfl
  | cons c bs ih =>
    rw [List.cons_append, feed, feed]
    cases aprs.drainByte c with
    | more a => exact ih
    | _ => rfl

theorem saveCall_more {addr : Addr} {save : Addr → Frame} (h : aprs.saveCall addr save = .more aprs') :
    aprs'.state = aprs.state := by
  unfold saveCall at h
  split at h
  · cases h
  · cases h
    rfl

theorem endField_more {state : AprsIsState} (h : aprs.endField state = .more aprs') :
    aprs'.state = state := by
  unfold endField at h
  split_ifs at h
  · exact saveCall_more h
  · exact saveCall_more h

/-- With an octet that it goes on with, the decoder completes no packet. -/
theorem drainByte_more (hs : aprs.state ≠ .complete) (h : aprs.drainByte c = .more aprs') :
    aprs'.state ≠ .complete := by
  unfold drainByte at h
  cases hstate : aprs.state with
  | header =>
    rw [hstate] at h
    dsimp only at h
    split_ifs at h
    · cases h
      simp
    · rw [saveCall_more h]
      exact hs
    · rw [endField_more h]
      simp
    · rw [endField_more h]
      simp
    · cases h
      simp
  | comment =>
    rw [hstate] at h
    dsimp only at h
    split_ifs at h
    cases h
    simp [hstate]
  | body =>
    rw [hstate] at h
    dsimp only at h
    split_ifs at h <;> cases h <;> simp [hstate]
  | complete => exact absurd hstate hs

theorem feed_state (hs : aprs.state ≠ .complete) (h : aprs.feed bs = some aprs') :
    aprs'.state ≠ .complete := by
  induction bs generalizing aprs with
  | nil =>
    cases h
    exact hs
  | cons c bs ih =>
    obtain ⟨a, ha, h⟩ := feed_cons_iff.mp h
    exact ih (drainByte_more hs ha) h

/-! ## A read -/

theorem drainLoop_feed (h : aprs.feed bs = some aprs') :
    drainLoop len (bs ++ rest) (aprs.inRead rx i) out =
      drainLoop len rest (aprs'.inRead rx (i + bs.length)) out := by
  induction bs generalizing aprs i with
  | nil =>
    cases h
    rfl
  | cons c bs ih =>
    obtain ⟨a, ha, h⟩ := feed_cons_iff.mp h
    rw [List.cons_append, drainLoop]
    have hnext : { aprs.inRead rx i with offsetI := (aprs.inRead rx i).offsetI + 1 } =
        aprs.inRead rx (i + 1) := rfl
    rw [hnext, drainByte_inRead, ha]
    dsimp only [Fed.inRead]
    rw [ih h, List.length_cons, Nat.add_assoc, Nat.add_comm 1]

theorem drain_fill (bs : Bytes) : (aprs.fill bs).drain out len =
    match drainLoop len bs (aprs.inRead bs 0) out with
    | .error e => .error e
    | .ok (true, aprs', out) => .ok (aprs'.offsetI, aprs', out)
    | .ok (false, aprs', out) => .ok (-1, aprs', out) := by
  rw [drain]
  have hdrop : (aprs.fill bs).rxBuf.drop (aprs.fill bs).offsetI = bs := rfl
  have hzero : (((aprs.fill bs).offsetI : Nat) : Int) = 0 := rfl
  rw [hdrop, hzero]
  have hfill : aprs.fill bs = aprs.inRead bs 0 := rfl
  rw [hfill]
  rcases drainLoop len bs (aprs.inRead bs 0) out with _ | ⟨_ | _, a, o⟩
  · rfl
  · rfl
  · simp only [sub_zero]

/-- The result of `handle_iface` with nothing pending. -/
theorem handleIface_idle (hne : bs ≠ []) (h : drainLoop len bs (aprs.inRead bs 0) out = .ok (true, aprs', out))
    (hs : aprs'.state ≠ .complete) : handleIface len aprs out bs = .ok (true, [], aprs', out) := by
  have hpending : aprs'.pending = false := by simp [pending, hs]
  rw [handleIface, if_neg (by simpa using hne), ifaceLoop, drain_fill, h]
  dsimp only
  rw [if_neg (by omega), hpending]
  rfl

/-- The result of `handle_iface` with a frame. -/
theorem handleIface_frame {frame : Bytes} (hne : bs ≠ [])
    (h : drainLoop len bs (aprs.inRead bs 0) out = .ok (true, aprs', out.store 0 frame))
    (hs : aprs'.state = .complete) (hlen : aprs'.encoded = frame.length) :
    handleIface len aprs out bs = .ok (true, [frame], aprs'.flush.2, out.store 0 frame) := by
  have hpending : aprs'.pending = true := by simp [pending, hs]
  have hagain : aprs'.flush.2.drain (out.store 0 frame) len =
      .ok (0, aprs'.flush.2, out.store 0 frame) := by
    have hrest : aprs'.flush.2.rxBuf.drop aprs'.flush.2.offsetI = [] := List.drop_length
    rw [drain, hrest, drainLoop]
    simp
  have hread : (out.store 0 frame).read 0 aprs'.encoded = frame := by
    rw [hlen]
    exact Mem.read_store_same
  rw [handleIface, if_neg (by simpa using hne), ifaceLoop, drain_fill, h]
  dsimp only
  rw [if_neg (by omega), hpending, ifaceLoop, hagain]
  have hflush : aprs'.flush = (aprs'.encoded, aprs'.flush.2) := rfl
  rw [hflush]
  dsimp only
  rw [hread]
  rfl

/-- After a flush the decoder is as new. -/
theorem flush_eq (aprs : AprsIs) : aprs.flush.2 = new.inRead aprs.rxBuf aprs.rxBuf.length := rfl

theorem handleReads_append {reads reads' frames : List Bytes} {out' : Mem}
    (h : handleReads len reads aprs out = .ok (true, frames, aprs', out')) :
    handleReads len (reads ++ reads') aprs out =
      match handleReads len reads' aprs' out' with
      | .error e => .error e
      | .ok (ok, more, aprs, out) => .ok (ok, frames ++ more, aprs, out) := by
  induction reads generalizing aprs out frames with
  | nil =>
    cases h
    rw [List.nil_append]
    rcases handleReads len reads' aprs' out' with _ | ⟨ok, more, a, o⟩ <;> rfl
  | cons bs reads ih =>
    rw [List.cons_append, handleReads]
    rw [handleReads] at h
    split at h
    · cases h
    · cases h
    · rename_i frames₁ a₁ o₁ h₁
      split at h
      · cases h
      · rename_i ok more a o hrest
        cases h
        rw [ih hrest]
        rcases handleReads len reads' aprs' out' with _ | ⟨ok, more', a, o⟩
        · rfl
        · simp

/-! ## A line -/

/-- What the octet that ends a line, or makes it refused, leaves behind: the frames, and a decoder as
new. -/
def Fed.Ends (len : Nat) (frames : List Bytes) : Fed → Prop
  | .more _ => False
  | .done aprs => frames = [] ∧ ∃ rx i, aprs = new.inRead rx i
  | .packet aprs => aprs.state = .complete ∧ ∃ bs, aprs.frame.encode len = .ok (some bs) ∧ frames = [bs]
  | .drop _ => frames = []

/-- The read with that octet. -/
theorem handleIface_ends {frames : List Bytes} (h : aprs.feed pre = some aprs')
    (hends : (aprs'.drainByte c).Ends len frames) (rx₀ : Bytes) (i₀ : Nat) : ∃ rx i out',
      handleIface len (aprs.inRead rx₀ i₀) out (pre ++ c :: post) =
        .ok (true, frames, new.inRead rx i, out') := by
  have hne : pre ++ c :: post ≠ [] := by simp
  have hloop : drainLoop len (pre ++ c :: post) (aprs.inRead (pre ++ c :: post) 0) out =
      drainLoop len (c :: post) (aprs'.inRead (pre ++ c :: post) pre.length) out := by
    rw [drainLoop_feed h, Nat.zero_add]
  generalize pre ++ c :: post = rx at *
  rw [drainLoop] at hloop
  have hnext : { aprs'.inRead rx pre.length with offsetI := (aprs'.inRead rx pre.length).offsetI + 1 } =
      aprs'.inRead rx (pre.length + 1) := rfl
  rw [hnext, drainByte_inRead] at hloop
  cases hfed : aprs'.drainByte c with
  | more a =>
    rw [hfed] at hends
    exact hends.elim
  | done a =>
    rw [hfed] at hends hloop
    obtain ⟨rfl, rx', j, rfl⟩ := hends
    exact ⟨rx, pre.length + 1, out, handleIface_idle hne hloop (by simp [new])⟩
  | packet a =>
    rw [hfed] at hends hloop
    obtain ⟨hstate, bs, hbs, rfl⟩ := hends
    have hframe : (a.inRead rx (pre.length + 1)).frame.encode len = .ok (some bs) := hbs
    dsimp only [Fed.inRead] at hloop
    rw [hframe] at hloop
    exact ⟨_, _, _, handleIface_frame hne hloop hstate rfl⟩
  | drop a =>
    rw [hfed] at hends hloop
    obtain rfl := hends
    dsimp only [Fed.inRead] at hloop
    rw [flush_eq] at hloop
    exact ⟨_, _, out, handleIface_idle hne hloop (by simp [new])⟩

/-- Reads in the middle of a line. -/
theorem handleReads_feed {reads : List Bytes} (hs : aprs.state ≠ .complete) (hne : ∀ r ∈ reads, r ≠ [])
    (h : aprs.feed reads.flatten = some aprs') (rx : Bytes) (i : Nat) : ∃ rx' i',
      handleReads len reads (aprs.inRead rx i) out = .ok (true, [], aprs'.inRead rx' i', out) := by
  induction reads generalizing aprs rx i with
  | nil =>
    cases h
    exact ⟨rx, i, rfl⟩
  | cons bs reads ih =>
    rw [List.forall_mem_cons] at hne
    rw [List.flatten_cons, feed_append, Option.bind_eq_some_iff] at h
    obtain ⟨a, ha, h⟩ := h
    have hloop : drainLoop len bs ((aprs.inRead rx i).inRead bs 0) out =
        .ok (true, a.inRead bs bs.length, out) := by
      have := @drainLoop_feed aprs a len 0 bs bs [] out ha
      rwa [List.append_nil, Nat.zero_add] at this
    have hstate := feed_state hs ha
    have hidle := handleIface_idle hne.1 hloop hstate
    obtain ⟨rx', i', hrest⟩ := ih hstate hne.2 h bs bs.length
    exact ⟨rx', i', by rw [handleReads, hidle]; dsimp only; rw [hrest]; rfl⟩

/-- A line in reads of its own, the last of which has the octet that ends it or makes it refused. -/
theorem handleReads_line {reads frames : List Bytes} {last : Bytes} (hs : aprs.state ≠ .complete)
    (hne : ∀ r ∈ reads, r ≠ []) (hline : reads.flatten ++ last = pre ++ c :: post)
    (hlast : reads.flatten.length ≤ pre.length) (h : aprs.feed pre = some aprs')
    (hends : (aprs'.drainByte c).Ends len frames) (rx : Bytes) (i : Nat) (out : Mem) : ∃ rx' i' out',
      handleReads len (reads ++ [last]) (aprs.inRead rx i) out =
        .ok (true, frames, new.inRead rx' i', out') := by
  obtain ⟨pre₂, rfl, rfl⟩ : ∃ pre₂, pre = reads.flatten ++ pre₂ ∧ last = pre₂ ++ c :: post := by
    obtain ⟨pre₂, rfl⟩ := List.prefix_of_prefix_length_le ⟨last, hline⟩ ⟨c :: post, rfl⟩ hlast
    exact ⟨pre₂, rfl, by simpa using hline⟩
  rw [feed_append, Option.bind_eq_some_iff] at h
  obtain ⟨a, ha, h⟩ := h
  obtain ⟨rx₁, i₁, hreads⟩ := handleReads_feed hs hne ha rx i
  obtain ⟨rx', i', out', hend⟩ := @handleIface_ends a aprs' len c pre₂ post out frames h hends rx₁ i₁
  refine ⟨rx', i', out', ?_⟩
  rw [handleReads_append hreads, handleReads, hend]
  simp [handleReads]

end AprsIs

end Patty
