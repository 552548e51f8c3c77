import Patty.Segment.Effect
import Patty.Wire.Sequence

/-! # Segments that are sent

`write_segmented` puts each segment together in `tx_buf`, and `frame_send` stores the header of the frame
in the same buffer before it copies the segment behind it. So the segment that is sent starts with the
first octet of the remote callsign, where the receiver looks for the count: no segment completes a message,
and none is ever written to its pty (`not_arrives`). -/

namespace Patty

open Prog

/-- `handle_segment` for the frames, in order. -/
def M.feed (p : Ptr) : List Frame → M Unit
  | [] => pure ()
  | f :: l => do
    let _ ← handleSegment p f
    feed p l

/-- What `decode_control` makes of the octets that a peer of `s` receives. -/
def Decodes (s : Sock) (octets : Nat × Bytes) (f : Frame) : Prop :=
  ∃ frame rest next, decodeControl frame s.format (.ofBytes octets.2 rest)
    (s.addressField .command).length octets.2.length = some (f, next)

/-- `write_segmented` does the same for all memories that agree in the payload: it reads no other. -/
def ReadsWithin (s : Sock) (buf : Mem) (len : Nat) (w : World) : Prop :=
  ∀ buf' : Mem, buf'.read 0 len = buf.read 0 len →
    M.writeSegmented s buf' len w = M.writeSegmented s buf len w

/-- Nothing is under way. -/
def Sock.Idle (s : Sock) : Prop := s.assembler.all (·.total = 0)

/-- The payload is read within its octets and sent in segments, and a peer that is fed these for its socket
`p` writes it to the pty, once. -/
structure Arrives (s : Sock) (buf : Mem) (len : Nat) (w : World) (p : Ptr) (v : World) : Prop where
  within : ReadsWithin s buf len w
  written : ∃ s' w' sent frames r v', M.writeSegmented s buf len w = .ok ((len, s'), w') ∧
    w'.sent = w.sent ++ sent ∧ List.Forall₂ (Decodes s) sent frames ∧ v.heap p = some r ∧
    (M.feed p frames).after v = some v' ∧ v'.written = v.written ++ [(r.fd, buf.read 0 len)]

/-! ## What is sent -/

namespace Sock.Differs

variable {s s' s'' : Sock}

theorem remote (h : s.Differs s') : s'.remote = s.remote := by
  obtain ⟨slots, vs, rfl⟩ := h
  rfl

theorem mode (h : s.Differs s') : s'.mode = s.mode := by
  obtain ⟨slots, vs, rfl⟩ := h
  rfl

theorem format (h : s.Differs s') : s'.format = s.format := by rw [Sock.format, h.mode, Sock.format]

theorem addressField {cr : FrameCr} (h : s.Differs s') : s'.addressField cr = s.addressField cr := by
  obtain ⟨slots, vs, rfl⟩ := h
  rfl

/-- The control field of an I frame of the one fits the other. -/
theorem fitsControl {ns : Nat} (h : s.Differs s') (h' : s.Differs s'') :
    s''.FitsControl (s'.controlI ns) ∧ Patty.controlI (s'.controlI ns) := by
  have hm : s''.mode = s'.mode := h'.mode.trans h.mode.symm
  have hpoll := s'.pollFlag_le
  rw [Sock.FitsControl, hm]
  cases hmode : s'.mode with
  | dm => simp [Sock.controlI, hmode, controlI_eq]
  | sabm =>
    rw [controlI_sabm hmode, controlI_eq, beq_iff_eq]
    have hsum : s'.vr % 8 * 32 + s'.pollFlag * 16 + ns % 8 * 2 < 2 ^ 8 := by omega
    exact ⟨by simpa using hsum, by omega⟩
  | sabme =>
    rw [controlI_sabme hmode, controlI_eq, beq_iff_eq]
    have hU : ¬controlU (s'.vr % 128 * 512 + s'.pollFlag * 256 + ns % 128 * 2) := by
      rw [controlU_eq, beq_iff_eq]
      omega
    rw [if_pos ⟨rfl, hU⟩]
    omega

end Sock.Differs

/-- An I frame of `s` with a segment that starts with the first octet of the remote callsign. -/
def Sock.SendsSegment (s : Sock) (octets : Bytes) : Prop :=
  s.remote.isSet ∧ ∃ s' control tail, s.Differs s' ∧ s'.FitsControl control ∧ Patty.controlI control ∧
    octets = s'.frameOctets .command control PATTY_AX25_PROTO_FRAGMENT (s.remote.callsign 0 :: tail)

theorem addressField_cons (s : Sock) (cr : FrameCr) :
    ∃ tail, s.addressField cr = s.remote.callsign 0 :: tail := by
  obtain ⟨tail, htail, hne⟩ : ∃ tail, stations (s.stationList cr) = s.remote.callsign 0 :: tail ∧
      tail.length ≠ 0 := by
    rw [Sock.stationList, stations, List.flatMap_cons]
    refine ⟨_, rfl, ?_⟩
    simp
  obtain ⟨n, hn⟩ := Nat.exists_eq_succ_of_ne_zero hne
  rw [addressField_eq, htail, List.length_cons, Nat.add_sub_cancel, hn]
  exact ⟨_, rfl⟩

/-- The segment as it is sent. -/
theorem segment_cons {s : Sock} {control : Nat} {proto : UInt8} {dest : Bytes} (hne : dest ≠ []) :
    ∃ tail, (s.frameHeader .command control proto true ++
      dest.drop (s.frameHeader .command control proto true).length).take dest.length =
        s.remote.callsign 0 :: tail := by
  obtain ⟨tail, htail⟩ := addressField_cons s .command
  obtain ⟨n, hn⟩ := Nat.exists_eq_succ_of_ne_zero (List.length_pos_iff.mpr hne).ne'
  rw [frameHeader_eq, htail, hn]
  exact ⟨_, rfl⟩

namespace M

variable {w : World} {s : Sock}

/-- Nothing is sent without a peer. -/
theorem frameSend_isSet {cr : FrameCr} {control : Nat} {proto : UInt8} {info : Bytes} :
    wp (frameSend s cr control proto info) (fun _ w' => w'.sent = w.sent ∨ s.remote.isSet)
      (fun _ => True) w := by
  rw [frameSend, wp_bind, wp_lift]
  refine ⟨?_, fun _ _ => trivial⟩
  rintro ((_ | e) | frame) h
  · exact .inl rfl
  · exact .inl rfl
  · have hset : s.remote.isSet := by
      rw [Sock.encodeFrame] at h
      split at h
      · cases h
      · split at h
        · cases h
        · rename_i hset
          simpa using hset
    exact wp_intro fun _ _ _ => .inr hset

theorem writeSegments_sent {buf : Mem} {len seglen : Nat} (htype : s.type = .stream) :
    ∀ {n i : Nat} {first : Bool} {s' : Sock} {w : World}, s.Differs s' →
      wp (writeSegments buf len seglen n i first s')
        (fun _ w' => ∃ sent, w'.sent = w.sent ++ sent ∧ ∀ x ∈ sent, s.SendsSegment x.2)
        (fun _ => True) w := by
  intro n
  induction n with
  | zero => exact fun _ => ⟨[], (List.append_nil _).symm, by simp⟩
  | succ n ih =>
    intro i first s₁ w hs₁
    have htype₁ : s₁.type = .stream := hs₁.type.trans htype
    rw [writeSegments]
    simp only [htype₁]
    rw [wp_bind, wp_lift]
    refine ⟨fun s₂ hsave => ?_, fun _ _ => trivial⟩
    have hs₂ : s.Differs s₂ := hs₁.txSlotSave hsave
    have htype₂ : s₂.type = .stream := hs₂.type.trans htype
    rw [wp_bind, wp_lift]
    refine ⟨fun _ _ => ?_, fun _ _ => trivial⟩
    rw [wp_bind]
    refine (frameSend_sent.and frameSend_isSet).post fun r w' h' => ?_
    obtain ⟨sent, hsent, hall⟩ : ∃ sent, w'.sent = w.sent ++ sent ∧ ∀ x ∈ sent, s.SendsSegment x.2 := by
      obtain ⟨hsame | ⟨j, hj⟩, hset⟩ := h'
      · exact ⟨[], hsame.trans (List.append_nil _).symm, by simp⟩
      · refine ⟨_, hj, fun x hx => ?_⟩
        obtain rfl := List.mem_singleton.mp hx
        have hset : s₂.remote.isSet := by
          refine hset.resolve_left fun hsame => ?_
          simp [hsame] at hj
        have hne : (if first = true then [UInt8.ofNat n ||| 0x80, UInt8.ofNat s₁.proto]
            else [UInt8.ofNat n]) ≠ [] := by
          split <;> simp
        obtain ⟨tail, htail⟩ := @segment_cons s₂ (s₁.controlI s₁.vs) PATTY_AX25_PROTO_FRAGMENT _
          (List.append_ne_nil_of_left_ne_nil hne _)
        obtain ⟨hfits, hI⟩ := @Sock.Differs.fitsControl s s₁ s₂ s₁.vs hs₁ hs₂
        refine ⟨hs₂.remote ▸ hset, s₂, _, tail, hs₂, hfits, hI, ?_⟩
        rw [← hs₂.remote, ← htail]
    rw [wp_ite, if_pos htype₂]
    refine ⟨fun _ => ⟨sent, hsent, hall⟩, fun _ => ?_⟩
    refine (ih hs₂.vsIncr).post fun _ w'' h'' => ?_
    obtain ⟨sent', hsent', hall'⟩ := h''
    refine ⟨sent ++ sent', by rw [hsent', hsent, List.append_assoc], fun x hx => ?_⟩
    rcases List.mem_append.mp hx with hx | hx
    · exact hall x hx
    · exact hall' x hx

theorem writeSegmented_sent {buf : Mem} {len : Nat} (htype : s.type = .stream) :
    wp (writeSegmented s buf len)
      (fun _ w' => ∃ sent, w'.sent = w.sent ++ sent ∧ ∀ x ∈ sent, s.SendsSegment x.2)
      (fun _ => True) w := by
  have hnone {w' : World} (h : w'.sent = w.sent) :
      ∃ sent, w'.sent = w.sent ++ sent ∧ ∀ x ∈ sent, s.SendsSegment x.2 :=
    ⟨[], h.trans (List.append_nil _).symm, by simp⟩
  rw [writeSegmented, wp_ite]
  refine ⟨fun _ => hnone rfl, fun _ => ?_⟩
  dsimp only
  rw [wp_ite]
  exact ⟨fun _ => hnone rfl, fun _ => writeSegments_sent htype ⟨s.txSlots, s.vs, rfl⟩⟩

end M

/-! ## What is received -/

/-- A segment whose header is neither 0 nor 0x80: it completes no message. -/
theorem SegmentEffect.unwritten_of_header {s : Sock} {f : Frame} {refuses : Bool}
    {asm : Option Assembler} {msg : Option Bytes} (h : SegmentEffect s f refuses asm msg)
    (hzero : f.infoAt 0 ≠ 0) : msg = none := by
  cases h with
  | delivered hsaves hcount =>
    exfalso
    refine hsaves.taken (.inr (.inl ⟨?_, hcount⟩))
    have hlow : 0x7f &&& f.infoAt 0 = 0 := by
      rw [UInt8.and_comm]
      exact UInt8.toNat_inj.mp hcount
    rw [Frame.segFirst, bne_iff_ne]
    intro hhigh
    have hor := or_and 0x7f 0x80 (f.infoAt 0)
    rw [hlow, UInt8.and_comm 0x80, hhigh, UInt8.and_comm] at hor
    exact hzero (UInt8.and_neg_one.symm.trans hor)
  | _ => rfl

namespace M

variable {w : World} {p : Ptr}

theorem handleSegment_written {f : Frame} (hzero : f.infoAt 0 ≠ 0) :
    wp (handleSegment p f) (fun _ w' => w'.written = w.written) (fun _ => True) w := by
  cases hp : w.heap p with
  | none => 
    rw [handleSegment, wp_bind, wp_deref]
    exact ⟨fun s hs => by simp [hp] at hs, fun _ => trivial⟩
  | some s =>
    refine (handleSegment_spec hp).post fun _ w' h => ?_
    obtain ⟨asm, msg, heffect, -, hwritten⟩ := h
    rw [heffect.unwritten_of_header hzero] at hwritten
    simpa using hwritten

theorem feed_written {l : List Frame} (hzero : ∀ f ∈ l, f.infoAt 0 ≠ 0) :
    wp (feed p l) (fun _ w' => w'.written = w.written) (fun _ => True) w := by
  induction l generalizing w with
  | nil => rfl
  | cons f l ih =>
    rw [feed, wp_bind]
    refine (handleSegment_written (hzero f (by simp))).post fun _ w' h => ?_
    refine (ih fun g hg => hzero g (by simp [hg])).post fun _ w'' h' => h'.trans h

end M

/-- The header that is decoded is the first octet of the remote callsign. -/
theorem Decodes.infoAt {s : Sock} {x : Nat × Bytes} {f : Frame} (h : Decodes s x f)
    (hx : s.SendsSegment x.2) : f.infoAt 0 ≠ 0 := by
  obtain ⟨hset, s', control, tail, hs', hfits, hI, hoctets⟩ := hx
  obtain ⟨frame, rest, next, hdec⟩ := h
  obtain ⟨g, hg, -, ⟨m, hm, hread⟩, -⟩ := decodeControl_i frame .command PATTY_AX25_PROTO_FRAGMENT rest
    hfits hI (List.cons_ne_nil (s.remote.callsign 0) tail)
  rw [hs'.addressField, hs'.format, ← hoctets] at hg
  obtain rfl : g = f := by simpa using congrArg (Option.map Prod.fst) (hg.symm.trans hdec)
  simp only [Frame.infoAt, hm]
  have hhead : m 0 = s.remote.callsign 0 := by
    rw [List.length_cons, Mem.read_succ] at hread
    exact (List.cons.inj hread).1
  rw [hhead]
  simpa [Addr.isSet] using hset

/-- A peer that is fed the segments writes nothing. -/
theorem feed_segments {s : Sock} {sent : List (Nat × Bytes)} {frames : List Frame} {p : Ptr} {v : World}
    (hall : ∀ x ∈ sent, s.SendsSegment x.2) (hdec : List.Forall₂ (Decodes s) sent frames) :
    wp (M.feed p frames) (fun _ v' => v'.written = v.written) (fun _ => True) v := by
  refine M.feed_written ?_
  induction hdec with
  | nil => simp
  | cons hd _ ih =>
    intro f hf
    rcases List.mem_cons.mp hf with rfl | hf
    · exact hd.infoAt (hall _ (by simp))
    · exact ih (fun x hx => hall x (by simp [hx])) f hf

/-- A payload that is sent in segments never arrives. -/
theorem not_arrives {s : Sock} {buf : Mem} {len : Nat} {w v : World} {p : Ptr}
    (htype : s.type = .stream) : ¬Arrives s buf len w p v := by
  rintro ⟨-, s', w', sent, frames, r, v', hrun, hsent, hdec, -, hfeed, hwritten⟩
  obtain ⟨sent', hsent', hall⟩ := (M.writeSegmented_sent htype).ok hrun
  obtain rfl : sent = sent' := List.append_cancel_left (hsent.symm.trans hsent')
  have hsame := (feed_segments hall hdec).after hfeed
  rw [hwritten] at hsame
  simp at hsame

/-! ## Three octets -/

/-- A socket that sends and receives two octets of information in a frame. -/
def narrowSock : Sock := { acceptedSock with nMaxlenTx := 2, nMaxlenRx := 2 }

/-- Three octets. -/
def threeOctets : Mem := .ofBytes [0x61, 0x62, 0x63] fun _ => 0

theorem not_arrives_three : ¬Arrives narrowSock threeOctets 3 (.withSock narrowSock) 0
    (.withSock narrowSock) := not_arrives rfl

/-- Three octets that are sent in four segments do not arrive. -/
theorem not_forall_arrives : ¬∀ (s : Sock) (buf : Mem) (len : Nat) (w v : World) (p : Ptr) (r : Sock),
    s.type = .stream → s.mode ≠ .dm → 2 ≤ s.nMaxlenTx → s.nMaxlenTx < len →
    (∃ s' w', M.writeSegmented s buf len w = .ok ((len, s'), w')) → v.heap p = some r →
    r.type = .stream → r.nMaxlenRx = s.nMaxlenTx → r.Idle → Arrives s buf len w p v := by
  intro h
  have hlen : ((M.writeSegmented narrowSock threeOctets 3 (.withSock narrowSock)).map
      (·.1.1)).toOption = some 3 := by decide +kernel
  have haccepted : ∃ s' w', M.writeSegmented narrowSock threeOctets 3 (.withSock narrowSock) =
      .ok ((3, s'), w') := by
    cases hrun : M.writeSegmented narrowSock threeOctets 3 (.withSock narrowSock) with
    | error e =>
      rw [hrun] at hlen
      cases hlen
    | ok r =>
      rw [hrun] at hlen
      obtain ⟨⟨n, s'⟩, w'⟩ := r
      obtain rfl : n = 3 := Option.some.inj hlen
      exact ⟨s', w', rfl⟩
  obtain ⟨-, s', w', sent, frames, r, v', hrun, hsent, hdec, -, hfeed, hwritten⟩ := h narrowSock
    threeOctets 3 (.withSock narrowSock) (.withSock narrowSock) 0 narrowSock rfl (by decide) (by decide)
    (by decide) haccepted rfl rfl rfl rfl
  obtain ⟨sent', hsent', hall⟩ := (M.writeSegmented_sent rfl).ok hrun
  obtain rfl : sent = sent' := List.append_cancel_left (hsent.symm.trans hsent')
  have hsame := (feed_segments hall hdec).after hfeed
  rw [hwritten] at hsame
  simp at hsame

end Patty
