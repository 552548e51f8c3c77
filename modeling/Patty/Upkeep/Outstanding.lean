import Patty.ClientStream
import Patty.Upkeep.Run
import Patty.Upkeep.Sending

/-! # T1 runs while frames are outstanding

On an established connection T1 runs as long as a slot holds a frame that was sent and is not acknowledged,
where the sends succeed (`covered_run`). -/

namespace Patty

open Prog

/-- T1 runs if the socket is an established STREAM socket that waits for an acknowledgement. -/
def Sock.Covered (s : Sock) : Prop :=
  s.type = .stream → s.state = .established → s.Owes → s.timerT1.running

/-- No driver and no pty fails in the step, and `frame_send` has no error for the data that a turn sends. -/
structure SendsSucceed (w : World) (inp : Input) : Prop where
  willing : inp.sys.Willing
  passes : ∀ fd elapsed ready data, inp.event = .sock fd elapsed ready (.ok data) →
    ∀ p s, w.socksByFd.lookup fd = some p → w.heap p = some s → s.type = .stream → s.state = .established →
      s.Passes s.nMaxlenTx

/-! ## Acknowledgements -/

namespace Sock

variable {s s' : Sock} {frame : Frame}

/-- The loop counts the slots that it marks. -/
theorem ackLoop_same {n i ret ret' : Nat} (h : s.ackLoop n i ret = .ok (ret', s')) :
    ret ≤ ret' ∧ (ret' = ret → s' = s) := by
  induction n generalizing i ret s with
  | zero =>
    cases h
    exact ⟨le_rfl, fun _ => rfl⟩
  | succ n ih =>
    rw [ackLoop] at h
    obtain ⟨⟨buf, off⟩, -, h⟩ := Except.bind_eq_ok h
    dsimp only at h
    split at h
    · obtain ⟨hle, -⟩ := ih h
      exact ⟨by omega, fun he => absurd he (by omega)⟩
    · exact ih h

/-- An acknowledgement that acknowledges nothing changes nothing. -/
theorem ack_same {nr : Nat} (h : s.ack nr = .ok (0, s')) : s' = s := by
  rw [ack] at h
  split at h
  · cases h
  · exact (ackLoop_same h).2 rfl

/-- After an acknowledgement T1 runs if frames are outstanding, or nothing was acknowledged. -/
theorem frameAck_owes (h : s.frameAck frame = .ok s') (ho : s'.Owes) :
    s'.timerT1.running ∨ s'.timerT1 = s.timerT1 ∧ s.Owes := by
  obtain ⟨⟨acked, s₁⟩, hack, h⟩ := Except.bind_eq_ok h
  obtain ⟨s₂, htimer, h⟩ := Except.bind_eq_ok h
  obtain ⟨vs, retries, hfinal⟩ := ackFinal_eq s₂ frame
  obtain rfl : s' = { s₂ with vs, retries } := (Except.ok.inj h).symm.trans hfinal
  have ho₂ : s₂.Owes := ho.congr rfl rfl rfl rfl
  simp only [ackTimer] at htimer
  split at htimer
  · obtain ⟨n, hn, htimer⟩ := Except.bind_eq_ok htimer
    split at htimer
    · cases htimer
      exact .inl rfl
    · cases htimer
      obtain ⟨m, hm, hpos⟩ := ho₂
      rw [hm] at hn
      cases hn
      exact absurd hpos ‹_›
  · cases htimer
    obtain rfl : acked = 0 := by omega
    obtain rfl := ack_same hack
    exact .inr ⟨rfl, ho₂.congr rfl rfl rfl rfl⟩

/-! ## What is kept -/

theorem Covered.moves (h : s.Covered) (hm : Moves s s') : s'.Covered := by
  intro htype hstate ho
  rcases hm.owes htype hstate ho with hrun | ⟨hstate, hrun, ho⟩
  · exact hrun
  · rw [← hrun]
    exact h (hm.type ▸ htype) hstate ho

theorem Covered.frameAck (h : s.Covered) (hs' : s.frameAck frame = .ok s') : s'.Covered := by
  intro htype hstate ho
  have hplace := frameAck_place hs'
  rcases frameAck_owes hs' ho with hrun | ⟨hrun, ho⟩
  · exact hrun
  · rw [hrun]
    exact h ((congrArg Place.type hplace).symm.trans htype) ((congrArg Place.state hplace).symm.trans hstate) ho

end Sock

theorem covered_lasting : Lasting (fun _ => Sock.Covered) 0 where
  moves h hm := h.moves hm
  fresh _ hs _ htype hstate _ := by
    obtain ⟨hnew, hclosed, -⟩ := Place.mk.inj hs
    rw [← hnew, if_neg (by rw [htype]; decide)] at hclosed
    rw [hclosed] at hstate
    cases hstate

/-- A socket with T1 running is covered. -/
theorem covered_born {p : Ptr} : BornGood (fun _ => Sock.Covered) p := fun _ _ _ _ _ _ hrun _ _ _ => hrun

namespace M

variable {w w' : World} {p : Ptr} {s : Sock}

theorem kept_notifyAccept {Good : Ptr → Sock → Prop} {n a b : Nat} {peer : Addr} {path : Bytes} :
    Keeping (Kept Good (fun _ => True) n) (notifyAccept a b peer path) := by
  refine quiet_answer.still.kept.bind fun a => ?_
  cases a with
  | none => exact Keeps.bind (Keeps.modify fun _ hw => ⟨hw.socks, hw.next, trivial⟩) fun _ => .pure
  | some e => exact quiet_setErrno.still.kept.bind fun _ => .pure

/-- A write of at most `n_maxlen_tx` octets sends one frame, so that it fails before it stores anything. -/
theorem covered_write {s₀ : Sock} {inp : Except Errno Bytes} (hpass : ∀ data, inp = .ok data →
      s₀.type = .stream → s₀.state = .established → s₀.Passes s₀.nMaxlenTx) :
    WritesWell (fun _ => Sock.Covered) (Sending s₀.wire p) p inp := by
  intro s w bs data hdata hs hw hheap htype hlen
  have hwire := hw.sock s hheap
  obtain ⟨htype₀, hstate₀, -, -, -, hlen₀⟩ := Wire.mk.inj hwire
  by_cases hstate : s.state = .established
  · have hs₀ : s.Passes s.nMaxlenTx := by
      rw [hlen₀]
      exact (hpass data hdata (htype₀ ▸ htype) (hstate₀ ▸ hstate)).congr hwire
    rw [sockWriteBytes, sockWrite, wp_ite]
    refine ⟨fun _ _ => hs, fun _ => ?_⟩
    simp only [htype]
    rw [if_neg (by omega), wp_bind, wp_lift]
    refine ⟨fun s₁ hsave => ?_, fun _ _ => trivial⟩
    obtain ⟨buf, rfl⟩ := Sock.txSlotSave_eq hsave
    rw [wp_bind]
    have hsend : Sock.Passes { s with txSlots := some buf } s.nMaxlenTx := hs₀.congr rfl
    refine (frameSend_willing hsend (by rw [Mem.length_read]; exact hlen) hw.willing).post ?_
    rintro r w₁ ⟨hr, -⟩
    rw [wp_ite]
    exact ⟨fun h => absurd h (by omega), fun _ h => absurd h (Int.natCast_nonneg bs.length).not_gt⟩
  · refine sockWrite_differs.post fun r _ hd _ _ hopen => ?_
    obtain ⟨slots, vs, hd⟩ := hd
    rw [hd] at hopen
    exact absurd hopen hstate

theorem covered_allows {inp : Input} (h : SendsSucceed w inp)
    (hw : Kept (fun _ => Sock.Covered) (fun _ => True) 0 { w with sys := inp.sys }) :
    Allows (fun _ => Sock.Covered) (fun _ => True) 0 (Kept (fun _ => Sock.Covered) (fun _ => True) 0)
      { w with sys := inp.sys } inp.event where
  turn fd elapsed ready data p he hfd := by
    obtain ⟨s₀, hs₀, hraw⟩ : ∃ s₀, (∀ s, w.heap p = some s → s = s₀) ∧ (w.heap p = none → s₀.type = .raw) := by
      cases hp : w.heap p with
      | none => exact ⟨{ Sock.zero with type := .raw }, by simp, fun _ => rfl⟩
      | some s => exact ⟨s, by simp, by simp⟩
    refine ⟨_, _, Sending.held s₀.wire p, covered_write fun bs hbs htype hstate => ?_, h.willing, ?_⟩
    · subst hbs
      cases hp : w.heap p with
      | none => exact nomatch (hraw hp).symm.trans htype
      | some s =>
        obtain rfl := hs₀ s hp
        exact h.passes fd elapsed ready bs he p s hfd hp htype hstate
    · exact fun s hs => congrArg Sock.wire (hs₀ s hs)
  connect c m w' _ _ hw' := by
    refine lasts_connectRequest covered_lasting (fun p s _ _ _ hstate => ?_) w' hw'
    cases hstate
  frame i buf len _ := by
    have hack (f : Frame) : AcksWell (fun _ => Sock.Covered) (World.frameSock { w with sys := inp.sys } buf len)
        f { w with sys := inp.sys } := fun _ _ _ _ _ hs _ hs' => hs.frameAck hs'
    have hloose := fun p (_ : True) => covered_lasting.canLoose (A := fun _ => True) p
    exact keeps_handleFrame covered_lasting.upkeep hloose (fun _ h => h)
      (listens_of_born covered_lasting.upkeep hloose covered_born) (fun _ _ => trivial) (fun f _ _ => hack f)
      (fun _ _ _ _ _ _ _ => kept_notifyAccept) hw

end M

/-- While the server runs and the sends succeed, T1 runs for every established STREAM socket with a frame that was
sent and is not acknowledged. -/
theorem covered_run {c : Config} {w : World} (h : Run World.Step SendsSucceed (.start c) w)
    (hrun : w.running) {p : Ptr} {s : Sock} (hp : w.heap p = some s) : s.Covered := by
  have hstart : (World.start c).running → Kept (fun _ => Sock.Covered) (fun _ => True) 0 (.start c) :=
    fun _ => ⟨by simp [World.start], Nat.zero_le _, trivial⟩
  have hkept := h.invariant (I := fun w => w.running → Kept (fun _ => Sock.Covered) (fun _ => True) 0 w)
    (fun w inp w' hw hsend hstep => ?_) hstart
  · exact (hkept hrun).socks p s hp
  · have hw := hw (World.step_iff.mp hstep).1
    exact (M.kept_step covered_lasting .refl hstep hw (M.covered_allows hsend ⟨hw.socks, hw.next, hw.accepts⟩)).2

/-! ## A connection that is accepted -/

/-- A server with one interface. -/
def oneInterface : Config := ⟨[sampleIface], ∅, [4], fun _ => false, 5⟩

/-- A SABM to the address of the interface. -/
def sabmFrame : Bytes := List.replicate 6 0x82 ++ [0xe0] ++ List.replicate 6 0x84 ++ [0x61, 0x3f]

/-- A client listens, and a SABM arrives. -/
def acceptInputs : List Input :=
  [⟨.accept 5, .allOk⟩,
   ⟨.write 5 (Request.socket 0xf0 0).bytes, .allOk⟩, ⟨.client 5, .allOk⟩,
   ⟨.write 5 (Request.bind 3 sampleIface.addr).bytes, .allOk⟩, ⟨.client 5, .allOk⟩,
   ⟨.write 5 (Request.listen 3).bytes, .allOk⟩, ⟨.client 5, .allOk⟩,
   ⟨.frame 0 (.ofBytes sabmFrame fun _ => 0) sabmFrame.length, .allOk⟩]

/-- The client writes an octet to the connection. -/
def firstTurn : Input := ⟨.sock 6 ⟨0, 0⟩ true (.ok [0x61]), .allOk⟩

theorem World.run_of_execAll {C : World → Input → Prop} {w w' : World} {inps : List Input}
    (h : w.execAll inps = some w') (hC : ∀ inp ∈ inps, ∀ w, C w inp) : Run World.Step C w w' := by
  induction inps generalizing w with
  | nil =>
    cases h
    exact .refl
  | cons inp inps ih =>
    obtain ⟨t, ht, h'⟩ := Option.bind_eq_some_iff.mp h
    exact (Run.single (hC inp List.mem_cons_self w) ht).trans
      (ih h' fun inp' hmem => hC inp' (List.mem_cons_of_mem _ hmem))

/-- Before the first octet nothing is sent for a socket. -/
theorem sendsSucceed_accept : ∀ inp ∈ acceptInputs, ∀ w, SendsSucceed w inp := by
  intro inp hinp w
  simp only [acceptInputs, List.mem_cons, List.not_mem_nil, or_false] at hinp
  rcases hinp with rfl | rfl | rfl | rfl | rfl | rfl | rfl | rfl <;>
    exact ⟨Sys.willing_allOk, fun _ _ _ _ h => nomatch h⟩

theorem run_accept : Run World.Step SendsSucceed (.start oneInterface)
    ((World.start oneInterface).after acceptInputs) := by
  obtain ⟨w, hw⟩ := Option.isSome_iff_exists.mp
    (show ((World.start oneInterface).execAll acceptInputs).isSome by decide +kernel)
  rw [World.after, hw]
  exact World.run_of_execAll hw sendsSucceed_accept

theorem sendsSucceed_first : SendsSucceed ((World.start oneInterface).after acceptInputs) firstTurn where
  willing := Sys.willing_allOk
  passes := by
    rintro _ _ _ _ ⟨⟩ p s hfd hp - -
    have hp₁ : ∀ p ∈ ((World.start oneInterface).after acceptInputs).socksByFd.lookup 6, p = 1 := by
      decide +kernel
    obtain rfl := hp₁ p hfd
    have hpass : ∀ s ∈ ((World.start oneInterface).after acceptInputs).heap 1, s.Passes s.nMaxlenTx := by
      decide +kernel
    exact hpass s hp

/-- The socket whose octet is sent waits for the acknowledgement, with T1 running. -/
theorem covered_first : ∃ w s, Run World.Step SendsSucceed (.start oneInterface) w ∧ w.heap 1 = some s ∧
    s.type = .stream ∧ s.state = .established ∧ s.Owes ∧ s.timerT1.running := by
  have hrun : Run World.Step SendsSucceed (.start oneInterface)
      ((World.start oneInterface).after (acceptInputs ++ [firstTurn])) :=
    .tail run_accept sendsSucceed_first (World.step_after acceptInputs (by decide +kernel))
  obtain ⟨s, hs⟩ := Option.isSome_iff_exists.mp
    (show (((World.start oneInterface).after (acceptInputs ++ [firstTurn])).heap 1).isSome by decide +kernel)
  have hopen : ∀ s ∈ ((World.start oneInterface).after (acceptInputs ++ [firstTurn])).heap 1,
      s.type = .stream ∧ s.state = .established ∧ s.ackPending.toOption = some 1 := by
    decide +kernel
  obtain ⟨htype, hstate, hpending⟩ := hopen s hs
  have howes : s.Owes := by
    cases hn : s.ackPending with
    | error e =>
      rw [hn] at hpending
      cases hpending
    | ok n =>
      rw [hn] at hpending
      exact ⟨n, hn, Option.some.inj hpending ▸ Nat.one_pos⟩
  exact ⟨_, s, hrun, hs, htype, hstate, howes, covered_run hrun (by decide +kernel) hs htype hstate howes⟩

end Patty
