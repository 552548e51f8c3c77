import Patty.Upkeep.Calls

/-! # The turns of the sockets keep what can be kept

A turn keeps all sockets good, provided that a write which fails leaves its socket good. What holds when the
turn begins, and is not changed before the write, is at hand there (`Held`). -/

namespace Patty

open Prog

/-- The part of a socket that a turn leaves alone up to its write: the state, and what `frame_send` tests before
it sends. -/
structure Wire where
  type : SockType
  state : SockState
  iface : Option Nat
  remote : Addr
  hops : Nat
  nMaxlenTx : Nat

def Sock.wire (s : Sock) : Wire := ⟨s.type, s.state, s.iface, s.remote, s.hops, s.nMaxlenTx⟩

theorem Timer.tick_running (t : Timer) (elapsed : Timespec) : (t.tick elapsed).running = t.running := by
  unfold Timer.tick
  split <;> rfl

/-- What is known of the socket `p` (`R`) and of the server (`V`) up to the write of a turn. -/
structure Held (V : World → Prop) (R : Sock → Prop) (p : Ptr) : Prop where
  sock : ∀ {w s}, V w → w.heap p = some s → R s
  wire : ∀ {s s'}, R s → s'.wire = s.wire → R s'
  store : ∀ {w s}, V w → R s → V (w.setSock p s)
  fdClear : ∀ {fd}, M.Keeping V (M.fdClear fd)
  resend : ∀ {s}, M.Keeping V (M.sockResendPending s)
  read : ∀ {s inp}, M.Keeping V (M.readPty s inp)

/-- Nothing is held. -/
theorem Held.none (p : Ptr) : Held (fun _ => True) (fun _ => True) p where
  sock _ _ := trivial
  wire _ _ := trivial
  store _ _ := trivial
  fdClear _ _ := wp_trivial
  resend _ _ := wp_trivial
  read _ _ := wp_trivial

/-- A write by the good socket `p` that fails leaves it good, where `inp` is what the pty has. -/
def WritesWell (Good : Ptr → Sock → Prop) (V : World → Prop) (p : Ptr) (inp : Except Errno Bytes) : Prop :=
  ∀ s w bs data, inp = .ok data → Good p s → V w → w.heap p = some s → s.type = .stream →
    bs.length ≤ s.nMaxlenTx → wp (M.sockWriteBytes s bs) (fun r _ => r.1 < 0 → Good p r.2) (fun _ => True) w

namespace M

variable {α : Type} {Good : Ptr → Sock → Prop} {A : List (Nat × Nat) → Prop} {n : Ptr} (L : Lasting Good n)
  {p : Ptr} {s : Sock} {w : World} {ready : Bool} {inp : Except Errno Bytes} {elapsed : Timespec}

/-! ## What a write changes -/

theorem writeSegments_differs {s₀ : Sock} {buf : Mem} {len seglen k i : Nat} {first : Bool}
    (hs : s₀.Differs s) : wp (writeSegments buf len seglen k i first s) (fun r _ => s₀.Differs r.2)
      (fun _ => True) w := by
  induction k generalizing i first s w with
  | zero => exact hs
  | succ k ih =>
    rw [writeSegments, wp_bind, wp_lift]
    refine ⟨fun s₁ hsave => ?_, fun _ _ => trivial⟩
    have hs₁ := hs.txSlotSave hsave
    rw [wp_bind, wp_lift]
    refine ⟨fun _ _ => ?_, fun _ _ => trivial⟩
    rw [wp_bind]
    refine wp_intro fun r w₁ _ => ?_
    rw [wp_ite]
    refine ⟨fun _ => hs₁, fun _ => ih ?_⟩
    split
    · exact hs₁.vsIncr
    · exact hs₁

theorem sockWrite_differs {buf : Mem} {len : Nat} :
    wp (sockWrite s buf len) (fun r _ => s.Differs r.2) (fun _ => True) w := by
  have hself : s.Differs s := ⟨s.txSlots, s.vs, rfl⟩
  have hsegmented : wp (writeSegmented s buf len) (fun r _ => s.Differs r.2) (fun _ => True) w := by
    rw [writeSegmented, wp_ite]
    refine ⟨fun _ => hself, fun _ => ?_⟩
    dsimp only
    rw [wp_ite]
    exact ⟨fun _ => hself, fun _ => writeSegments_differs hself⟩
  rw [sockWrite, wp_ite]
  refine ⟨fun _ => hself, fun _ => ?_⟩
  split
  · rw [wp_ite]
    refine ⟨fun _ => hsegmented, fun _ => ?_⟩
    rw [wp_bind, wp_lift]
    refine ⟨fun s₁ hsave => ?_, fun _ _ => trivial⟩
    have hs₁ := hself.txSlotSave hsave
    rw [wp_bind]
    refine wp_intro fun r w₁ _ => ?_
    rw [wp_ite]
    exact ⟨fun _ => hs₁, fun _ => hs₁.vsIncr⟩
  · rw [wp_ite]
    exact ⟨fun _ => hsegmented, fun _ => wp_bind.mpr (wp_intro fun _ _ _ => hself)⟩
  · cases s.iface with
    | none => exact trivial
    | some i => exact wp_bind.mpr (wp_intro fun _ _ _ => hself)
  · exact hself

theorem sockResendPending_vs :
    wp (sockResendPending s) (fun r _ => ∃ vs, r.2 = { s with vs }) (fun _ => True) w := by
  rw [sockResendPending, wp_bind, wp_lift]
  refine ⟨fun a _ => ?_, fun _ _ => trivial⟩
  rw [wp_ite]
  refine ⟨fun _ => ?_, fun _ => ⟨s.vs, rfl⟩⟩
  rw [wp_bind]
  refine wp_intro fun len w₁ _ => ?_
  rw [wp_ite]
  exact ⟨fun _ => ⟨s.vs, rfl⟩, fun _ => ⟨_, rfl⟩⟩

theorem readPty_length : wp (readPty s inp)
    (fun r _ => ∀ bs, r = .ok bs → (∃ data, inp = .ok data) ∧ bs.length ≤ s.nMaxlenTx) (fun _ => True) w := by
  unfold readPty
  split
  · exact wp_bind.mpr (wp_intro fun _ _ _ bs h => nomatch h)
  · rename_i data
    rw [wp_ite]
    refine ⟨fun _ bs h => ?_, fun _ => ?_⟩
    · cases h
      exact ⟨⟨data, rfl⟩, Nat.zero_le _⟩
    · split
      · exact wp_bind.mpr (wp_intro fun _ _ _ bs h => nomatch h)
      · rw [wp_ite]
        refine ⟨fun _ => trivial, fun _ bs h => ?_⟩
        cases h
        exact ⟨⟨data, rfl⟩, List.length_take_le ..⟩

theorem tickTimers_duty (s : Sock) (elapsed : Timespec) : (tickTimers s elapsed).duty = s.duty := by
  rw [tickTimers, Sock.duty, Sock.duty, Timer.tick_running]

theorem setRetries_duty (s : Sock) (n : Nat) : { s with retries := n }.duty = s.duty := rfl

theorem setVs_duty (s : Sock) (vs : Nat) : { s with vs }.duty = s.duty := rfl

theorem retriesDecr_duty (s : Sock) : s.retriesDecr.duty = s.duty := setRetries_duty s _

include L

theorem retriesDecr_good (hs : Good p s) : Good p s.retriesDecr := L.moves hs (.stay (retriesDecr_duty s))

theorem start_good {t : Timer} (hs : Good p s) (ht : t.running) : Good p { s with timerT1 := t } :=
  L.moves hs (.runs rfl rfl (fun h => h) (fun h => h) ht)

/-- A socket that tries again. -/
theorem retry_good (hs : Good p s) : Good p (retry s) :=
  start_good L (t := s.timerT1.start) (retriesDecr_good L hs) rfl

/-- A write changes the slots and V(S), which matters for STREAM sockets only. -/
theorem differs_good {s' : Sock} (hs : Good p s) (hd : s.Differs s') (htype : s.type ≠ .stream) :
    Good p s' := by
  obtain ⟨slots, vs, rfl⟩ := hd
  exact L.moves hs ⟨rfl, rfl, fun h => h, fun h => h, fun _ => .inr ⟨rfl, rfl⟩, fun h => absurd h htype⟩

/-! ## DGRAM and RAW sockets -/

theorem kept_handleSockDgram (hdgram : w.heap p = some s) (htype : s.type = .dgram)
    (hw : Kept Good A n w) :
    wp (handleSockDgram p ready inp) (fun _ w' => Kept Good A n w') (fun _ => True) w := by
  have hclose : Keeping (Kept Good A n) (do
      let _ ← sockClose p
      pure 0 : M Int) := keeping_sockClose.bind fun _ => .pure
  rw [handleSockDgram, wp_bind]
  refine wp_deref_some hdgram ?_
  have hs := hw.socks p s hdgram
  refine (Keeps.gets.bind fun _ => .ite (fun _ => .pure) fun _ => ?_ : Keeping _ _) w hw
  refine quiet_readPty.still.kept.bind fun r => ?_
  split
  · exact hclose
  · exact hclose
  · exact .pure
  · refine quiet_sockWriteBytes.still.kept.bind_of (fun _ => sockWrite_differs) ?_
    rintro ⟨r, s'⟩ hd
    have hs' : Good p s' := differs_good L hs hd (by rw [htype]; decide)
    exact (kept_store hs').bind fun _ => .ite (fun _ => hclose) fun _ => .pure

theorem kept_sendRaw {i fuel : Nat} : Keeping (Kept Good A n) (sendRaw p i fuel) := by
  induction fuel with
  | zero => exact .pure
  | succ fuel ih =>
    refine kept_deref fun s hs => ?_
    cases hraw : s.raw with
    | none => exact .pure
    | some tnc =>
      refine quiet_getIface.still.kept.bind fun iface => .lift_bind (fun _ _ => trivial) fun r _ => ?_
      refine quiet_setIface.still.kept.bind fun _ => (kept_stay L hs (by rfl)).bind fun _ => ?_
      refine .ite (fun _ => .pure) fun _ => .ite (fun _ => .pure) fun _ => ?_
      exact (kept_stay L hs (by rfl)).bind fun _ => quiet_ifSend.still.kept.bind fun _ =>
        .ite (fun _ => .pure) fun _ => ih

theorem kept_handleSockRaw : Keeping (Kept Good A n) (handleSockRaw p ready inp) := by
  refine kept_deref fun s hs => Keeps.gets.bind fun _ => .ite (fun _ => .pure) fun _ => ?_
  split
  · split
    · exact quiet_setErrno.still.kept.bind fun _ => .pure
    · exact keeping_sockClose.bind fun _ => .pure
    · exact (kept_stay L hs (by rfl)).bind fun _ => kept_sendRaw L
  · exact .pure

/-! ## STREAM sockets -/

theorem kept_handleSockPendingAccept (hs : Good p s) :
    Keeping (Kept Good A n) (handleSockPendingAccept p s) := by
  refine .ite (fun _ => .ite (fun _ => ?_) fun _ => ?_) fun _ => .pure
  · exact (kept_store (retry_good L hs)).bind fun _ => quiet_sendXid.still.kept
  · exact (kept_store (retriesDecr_good L hs)).bind fun _ => keeping_sockClose.bind fun _ => .pure

theorem kept_handleSockPendingConnect (hs : Good p s) :
    Keeping (Kept Good A n) (handleSockPendingConnect p s) := by
  refine .ite (fun _ => .ite (fun _ => ?_) fun _ => ?_) fun _ => .pure
  · exact (kept_store (retry_good L hs)).bind fun _ => quiet_sendSabm.still.kept
  · refine (kept_store (retriesDecr_good L hs)).bind fun _ => Keeps.gets.bind fun c => ?_
    cases c with
    | none => exact .pure
    | some c =>
      exact (kept_sockShutdown L).bind fun _ => keeping_sockClose.bind fun _ => kept_respond

theorem kept_handleSockT1 (hs : Good p s) : Keeping (Kept Good A n) (handleSockT1 p s) := by
  refine .ite (fun _ => ?_) fun _ => ?_
  · refine quiet_sockResendPending.still.kept.bind_of (fun _ => sockResendPending_vs) ?_
    rintro ⟨len, s'⟩ ⟨vs, hs'⟩
    have hduty : s'.duty = (retry s).duty := by
      rw [show s' = { retry s with vs } from hs']
      exact setVs_duty (retry s) vs
    refine (kept_stay L (retry_good L hs) hduty).bind fun _ => .ite (fun _ => .pure) fun _ => ?_
    exact quiet_sendRr.still.kept.bind fun _ => .pure
  · exact (kept_store (retriesDecr_good L hs)).bind fun _ => (kept_sockShutdown L).bind fun _ =>
      keeping_sockClose

/-! ## Sending -/

variable {V : World → Prop} {R : Sock → Prop} (H : Held V R p)
include H

omit L in
theorem held_deref {g : Sock → M α} (hg : ∀ s, Good p s → R s →
      Keeping (fun w => Kept Good A n w ∧ V w) (g s)) :
    Keeping (fun w => Kept Good A n w ∧ V w) (deref p >>= g) := by
  rintro w ⟨hw, hv⟩
  rw [wp_bind, wp_deref]
  exact ⟨fun s hs => hg s (hw.socks p s hs) (H.sock hv hs) w ⟨hw, hv⟩, fun _ => trivial⟩

theorem held_stay {s' : Sock} (hs : Good p s) (hr : R s) (hduty : s'.duty = s.duty)
    (hwire : s'.wire = s.wire) :
    Keeping (fun w => Kept Good A n w ∧ V w) (store p s') := fun w h =>
  ⟨kept_stay L hs hduty w h.1, H.store h.2 (H.wire hr hwire)⟩

omit L H in
theorem held_quiet {m : M α} (hm : Quiet m) (hv : Keeping V m) :
    Keeping (fun w => Kept Good A n w ∧ V w) m := fun w h => (hm.still.kept w h.1).and (hv w h.2)

theorem held_flowCheck (hs : Good p s) (hr : R s) :
    Keeping (fun w => Kept Good A n w ∧ V w) (flowCheck p s) := by
  have hstop : Keeping (fun w => Kept Good A n w ∧ V w) (sockFlowStop p) :=
    held_deref H fun s hs hr => (held_quiet quiet_fdClear H.fdClear).bind fun _ => held_stay L H hs hr (by rfl) (by rfl)
  exact (held_stay L H hs hr (by rfl) (by rfl)).bind fun _ => .ite (fun _ => hstop) fun _ => .pure

variable (hwrite : WritesWell Good V p inp)
include hwrite

/-- The write of a turn is followed by the start of T1, or it failed. -/
theorem kept_sockRead (hw : Kept Good A n w) (hv : V w) :
    wp (sockRead p inp) (fun _ w' => Kept Good A n w') (fun _ => True) w := by
  have hshutdown : Keeping (Kept Good A n) (do
      let _ ← sockShutdown p
      pure 0 : M Int) := (kept_sockShutdown L).bind fun _ => .pure
  have hclose : Keeping (Kept Good A n) (do
      let _ ← sockClose p
      pure 0 : M Int) := keeping_sockClose.bind fun _ => .pure
  rw [sockRead, wp_bind, wp_deref]
  refine ⟨fun s hheap => ?_, fun _ => trivial⟩
  have hs := hw.socks p s hheap
  rw [wp_bind]
  refine wp_intro fun r w₁ h₁ => ?_
  have hw₁ : Kept Good A n w₁ := (quiet_readPty.still.kept w hw).ok h₁
  have hv₁ : V w₁ := (H.read w hv).ok h₁
  have hheap₁ : w₁.heap p = some s := by
    rw [show w₁.heap = w.heap from congrArg Core.heap (quiet_readPty.core _ _ _ h₁)]
    exact hheap
  split
  · exact hshutdown w₁ hw₁
  · exact hshutdown w₁ hw₁
  · exact hw₁
  · rename_i bs _
    obtain ⟨⟨data, hdata⟩, hlen⟩ := readPty_length.ok h₁ bs rfl
    have hfail : wp (sockWriteBytes s bs) (fun r _ => r.1 < 0 → Good p r.2) (fun _ => True) w₁ := by
      by_cases htype : s.type = .stream
      · exact hwrite s w₁ bs data hdata hs hv₁ hheap₁ htype hlen
      · exact sockWrite_differs.post fun r _ hd _ => differs_good L hs hd htype
    rw [wp_bind]
    refine ((quiet_sockWriteBytes.still.kept w₁ hw₁).and (sockWrite_differs.and hfail)).post ?_
    rintro ⟨r, s'⟩ w₂ ⟨hw₂, ⟨slots, vs, hd⟩, hfail⟩
    have hd : s' = { s with txSlots := slots, vs } := hd
    dsimp only
    rw [wp_bind, wp_store, wp_ite]
    refine ⟨fun hr => hclose _ (hw₂.exempt.setSock (hfail hr)), fun _ => ?_⟩
    have hgood : Good p { s' with timerT1 := s'.timerT1.start, timerT3 := s'.timerT3.stop } := by
      rw [hd]
      exact L.moves hs (.runs rfl rfl (fun h => h) (fun h => h) rfl)
    exact Kept.setSock (kept_store (.inl rfl) _ hw₂.exempt) hgood

theorem kept_sockSend (hw : Kept Good A n w) (hv : V w) :
    wp (sockSend p ready inp) (fun _ w' => Kept Good A n w') (fun _ => True) w := by
  rw [sockSend, wp_bind, wp_deref]
  refine ⟨fun s hheap => ?_, fun _ => trivial⟩
  rw [wp_bind, fdIsset, wp_gets, wp_ite]
  refine ⟨fun _ => hw, fun _ => ?_⟩
  rw [wp_bind]
  refine (held_flowCheck L H (hw.socks p s hheap) (H.sock hv hheap) w ⟨hw, hv⟩).post ?_
  rintro - w₁ ⟨hw₁, hv₁⟩
  rw [wp_bind, wp_deref]
  refine ⟨fun s₁ hheap₁ => ?_, fun _ => trivial⟩
  have hs₁ := hw₁.socks p s₁ hheap₁
  have hr₁ := H.sock hv₁ hheap₁
  rw [wp_bind]
  refine ((held_quiet quiet_sockResendPending H.resend w₁ ⟨hw₁, hv₁⟩).and sockResendPending_vs).post ?_
  rintro ⟨len, s₂⟩ w₂ ⟨hw₂, vs, hs₂⟩
  have hs₂ : s₂ = { s₁ with vs } := hs₂
  dsimp only
  rw [wp_bind]
  refine (held_stay L H hs₁ hr₁ (by rw [hs₂]; rfl) (by rw [hs₂]; rfl) w₂ hw₂).post ?_
  rintro - w₃ ⟨hw₃, hv₃⟩
  rw [wp_ite]
  refine ⟨fun _ => hw₃, fun _ => ?_⟩
  rw [wp_ite]
  refine ⟨fun _ => ?_, fun _ => kept_sockRead L H hwrite hw₃ hv₃⟩
  have hs₂' : Good p s₂ := L.moves hs₁ (.stay (by rw [hs₂]; rfl))
  exact ((kept_store (start_good L hs₂' rfl)).bind fun _ => .pure) w₃ hw₃

theorem kept_handleSockEstablished (hs : Good p s) (hr : R s) (hw : Kept Good A n w) (hv : V w) :
    wp (handleSockEstablished p s ready inp) (fun _ w' => Kept Good A n w') (fun _ => True) w := by
  rw [handleSockEstablished, wp_ite]
  refine ⟨fun _ => kept_handleSockT1 L hs w hw, fun _ => ?_⟩
  obtain ⟨s₁, hs₁⟩ : ∃ s₁, s₁ = if s.timerT2.expired then { s with timerT2 := s.timerT2.stop } else s :=
    ⟨_, rfl⟩
  have hduty : s₁.duty = s.duty := by
    rw [hs₁]
    split <;> rfl
  have hwire : s₁.wire = s.wire := by
    rw [hs₁]
    split <;> rfl
  have hgood : Good p s₁ := L.moves hs (.stay hduty)
  dsimp only
  rw [← hs₁, wp_ite]
  refine ⟨fun _ => ((kept_stay L hgood (by rfl)).bind fun _ => quiet_sendRr.still.kept) w hw, fun _ => ?_⟩
  rw [wp_ite]
  refine ⟨fun _ => ?_, fun _ => ?_⟩
  · have hpoll : Good p { s₁ with
        retries := s₁.nRetry, timerT3 := s₁.timerT3.stop, timerT1 := s₁.timerT1.start } :=
      L.moves hgood (.runs rfl rfl (fun h => h) (fun h => h) rfl)
    exact ((kept_store hpoll).bind fun _ => quiet_sendRr.still.kept) w hw
  · rw [wp_bind]
    refine (held_stay L H hs hr hduty hwire w ⟨hw, hv⟩).post ?_
    rintro - w₁ ⟨hw₁, hv₁⟩
    exact kept_sockSend L H hwrite hw₁ hv₁

theorem kept_handleSockPendingDisconnect (hs : Good p s) (hw : Kept Good A n w) (hv : V w) :
    wp (handleSockPendingDisconnect p s ready inp) (fun _ w' => Kept Good A n w') (fun _ => True) w := by
  rw [handleSockPendingDisconnect, wp_ite]
  refine ⟨fun _ => ?_, fun _ => kept_sockSend L H hwrite hw hv⟩
  refine (Keeps.ite (fun _ => ?_) fun _ => ?_ : Keeping _ _) w hw
  · exact (kept_store (retry_good L hs)).bind fun _ => quiet_sendDisc.still.kept
  · exact (kept_store (retriesDecr_good L hs)).bind fun _ => keeping_sockClose

/-- `handle_sock` for the socket `p`. -/
theorem kept_handleSock (hw : Kept Good A n w) (hv : V w) :
    wp (handleSock p elapsed ready inp) (fun _ w' => Kept Good A n w') (fun _ => True) w := by
  rw [handleSock, wp_bind, wp_deref]
  refine ⟨fun s hheap => ?_, fun _ => trivial⟩
  have hs := hw.socks p s hheap
  have hr := H.sock hv hheap
  split
  · exact kept_handleSockDgram L hheap ‹_› hw
  · exact kept_handleSockRaw L w hw
  · have htick : Good p (tickTimers s elapsed) := L.moves hs (.stay (tickTimers_duty s elapsed))
    have hr' : R (tickTimers s elapsed) := H.wire hr rfl
    rw [wp_bind]
    refine (held_stay L H hs hr (tickTimers_duty s elapsed) rfl w ⟨hw, hv⟩).post ?_
    rintro - w₁ ⟨hw₁, hv₁⟩
    split
    · exact kept_handleSockPendingAccept L htick w₁ hw₁
    · exact kept_handleSockPendingConnect L htick w₁ hw₁
    · exact kept_handleSockEstablished L H hwrite htick hr' hw₁ hv₁
    · exact kept_handleSockPendingDisconnect L H hwrite htick hw₁ hv₁
    · exact kept_sockSend L H hwrite hw₁ hv₁

end M

end Patty
