import Patty.Place
import Patty.Receive
import Patty.Wire.Reply

/-! # The ways back of the server (`server.c`)

`save_reply_addr` keeps the way back to a peer for the frames of a connection. It counts the repeaters of
the socket instead of those of the frame, so that the way it keeps is that of a reply only where the frame
has none (`samePath_iff`). `reply_test` replies with an UA frame, which has no information field, so that
no TEST frame is echoed (`not_echoes`). -/

namespace Patty

open Prog

variable {buf : Mem} {len n size i : Nat} {frame₀ frame f : Frame} {dest src dest' src' : Addr}
  {hops hops' : List Addr} {cr : FrameCr} {field field' bs : Bytes} {s : Sock} {w : World}

/-! ## The way of a connection -/

/-- The address field lists these stations. -/
def Lists (field : Bytes) (dest src : Addr) (hops : List Addr) : Prop :=
  ∀ (frame : Frame) (rest : Mem), ∃ f,
    decodeAddress frame (.ofBytes field rest) field.length = some (f, field.length) ∧
      f.dest.Same dest ∧ f.src.Same src ∧ List.Forall₂ Addr.Same (hopList f.repeaters f.hops) hops

/-- Both address fields list the same destination, the same source and the same repeaters. -/
def SamePath (field field' : Bytes) : Prop :=
  ∃ dest src hops, Lists field dest src hops ∧ Lists field' dest src hops

theorem lists_addressOctets (h : StationsFit dest src hops) (cr : FrameCr) :
    Lists (addressOctets dest src hops cr) dest src hops := by
  intro frame rest
  have hread : Mem.read (.ofBytes (addressOctets dest src hops cr) rest) 0 (7 * (2 + hops.length)) =
      addressOctets dest src hops cr := by
    have hlen : (addressOctets dest src hops cr).length = 7 * (2 + hops.length) := length_addressOctets
    rw [← hlen]
    exact Mem.read_ofBytes rest
  obtain ⟨f, hf, hfrom⟩ := decodeAddress_octets frame h.dest h.src h.hops h.count le_rfl hread
  rw [length_addressOctets]
  exact ⟨f, hf, hfrom.dest, hfrom.src, hfrom.hops⟩

/-- How many repeaters an address field lists. -/
theorem Lists.length_eq (h : Lists field dest src hops) (h' : Lists field dest' src' hops') :
    hops.length = hops'.length := by
  obtain ⟨f, hf, -, -, hhops⟩ := h .blank fun _ => 0
  obtain ⟨f', hf', -, -, hhops'⟩ := h' .blank fun _ => 0
  cases hf.symm.trans hf'
  exact hhops.length_eq.symm.trans hhops'.length_eq

namespace M

/-- A new socket has no repeaters. -/
theorem sockNew_hops {proto : Nat} {type : SockType} :
    wp (sockNew proto type) (Makes fun s => s.hops = 0) (fun _ => True) w := by
  refine sockNew_makes (fun _ _ => rfl) (fun _ _ _ => rfl) fun _ _ _ _ _ => ?_
  dsimp only
  split <;> rfl

end M

/-- What is left of the repeaters of a frame in a socket that has none. -/
theorem addressField_saved (h : frame.hops ≤ PATTY_AX25_MAX_HOPS) (hs : s.hops = 0) :
    (s.saveReplyAddr frame).addressField cr = addressOctets frame.src frame.dest [] cr := by
  have hhops : (s.saveReplyAddr frame).hops = 0 := (if_neg (by omega)).trans hs
  have hlist : (s.saveReplyAddr frame).repeaterList = [] := by
    rw [Sock.repeaterList, hhops]
    simp
  rw [addressField_octets, hlist]
  rfl

/-- The ways are the same only where there is nothing to reverse. -/
theorem samePath_saved (h : decodeAddress frame₀ buf len = some (frame, n)) (hs : s.hops = 0) :
    SamePath ((s.saveReplyAddr frame).addressField cr) (encodeAddressReply frame) ↔ frame.hops = 0 := by
  obtain ⟨hhops, hfit⟩ := stationsFit_wayBack h
  have hdirect : StationsFit frame.src frame.dest [] :=
    ⟨hfit.dest, hfit.src, Nat.zero_le _, fun _ ha => absurd ha List.not_mem_nil⟩
  rw [addressField_saved hhops hs, encodeAddressReply_eq hhops]
  constructor
  · rintro ⟨dest, src, hops, hlists, hlists'⟩
    have hzero := hlists.length_eq (lists_addressOctets hdirect cr)
    have hcount := hlists'.length_eq (lists_addressOctets hfit frame.cr.swap)
    rw [hzero, Frame.wayBack, List.length_reverse, length_hopList hhops] at hcount
    exact hcount.symm
  · intro hzero
    have hback : frame.wayBack = [] := by
      rw [Frame.wayBack, hzero]
      simp [hopList]
    rw [hback]
    exact ⟨_, _, _, lists_addressOctets hdirect cr, lists_addressOctets hdirect frame.cr.swap⟩

/-- The frames of a connection go the way of a reply to the frame that opened it exactly if that frame
came without repeaters. -/
theorem samePath_iff (frame₀ frame : Frame) (buf : Mem) (len n proto : Nat) (type : SockType)
    (w₀ w : World) (p : Ptr) (s : Sock) (cr : FrameCr)
    (h : decodeAddress frame₀ buf len = some (frame, n))
    (hnew : M.sockNew proto type w₀ = .ok (some p, w)) (hp : w.heap p = some s) :
    SamePath ((s.saveReplyAddr frame).addressField cr) (encodeAddressReply frame) ↔ frame.hops = 0 :=
  samePath_saved h (M.sockNew_hops.ok hnew p rfl s hp)

/-- A new STREAM socket. -/
theorem sockNew_sample : ∃ w s, M.sockNew 0xf0 .stream (.withSock acceptedSock) = .ok (some 1, w) ∧
    w.heap 1 = some s := ⟨_, _, rfl, rfl⟩

/-- A frame without repeaters. -/
theorem samePath_direct : ∃ frame w s,
    decodeAddress .blank (.ofBytes sampleAddress fun _ => 0) 14 = some (frame, 14) ∧
      M.sockNew 0xf0 .stream (.withSock acceptedSock) = .ok (some 1, w) ∧ w.heap 1 = some s ∧
        (SamePath ((s.saveReplyAddr frame).addressField .command) (encodeAddressReply frame) ↔
          frame.hops = 0) := by
  obtain ⟨w, s, hnew, hp⟩ := sockNew_sample
  obtain ⟨frame, h⟩ : ∃ frame, decodeAddress .blank (.ofBytes sampleAddress fun _ => 0) 14 =
    some (frame, 14) := ⟨_, rfl⟩
  exact ⟨frame, w, s, h, hnew, hp, samePath_iff .blank frame _ 14 14 0xf0 .stream _ w 1 s .command h hnew hp⟩

/-- The frames of a connection over a repeater leave it out. -/
theorem not_samePath_digipeated : ¬∀ (frame₀ frame : Frame) (buf : Mem) (len n proto : Nat)
    (type : SockType) (w₀ w : World) (p : Ptr) (s : Sock) (cr : FrameCr),
    decodeAddress frame₀ buf len = some (frame, n) → M.sockNew proto type w₀ = .ok (some p, w) →
    w.heap p = some s →
    SamePath ((s.saveReplyAddr frame).addressField cr) (encodeAddressReply frame) := by
  intro h
  obtain ⟨w, s, hnew, hp⟩ := sockNew_sample
  obtain ⟨frame, hframe, hhops, -⟩ := digipeated_accepted
  have hs : s.hops = 0 := M.sockNew_hops.ok hnew 1 rfl s hp
  have hzero := (samePath_saved hframe hs).mp
    (h .blank frame _ 21 21 0xf0 .stream _ w 1 s .command hframe hnew hp)
  rw [hhops] at hzero
  cases hzero

/-! ## TEST frames -/

/-- The octets are a TEST frame with the stations swapped, the F bit and the same information field. -/
def EchoOf (frame : Frame) (bs : Bytes) : Prop :=
  ∃ (frame₁ : Frame) (format : FrameFormat) (rest : Mem) (f : Frame) (next : Nat),
    decodeFrame frame₁ format (.ofBytes bs rest) bs.length = some (f, next) ∧ f.type = .test ∧
      f.dest.Same frame.src ∧ f.src.Same frame.dest ∧ f.pf = 1 ∧ f.infoBytes = frame.infoBytes

/-- The octets are an UA frame that goes back the way of the frame, without information field. -/
def UaTo (frame : Frame) (bs : Bytes) : Prop :=
  ∀ (frame₁ : Frame) (format : FrameFormat) (rest : Mem), ∃ (f : Frame) (next : Nat),
    decodeFrame frame₁ format (.ofBytes bs rest) bs.length = some (f, next) ∧ f.type = .ua ∧
      f.From frame.src frame.dest frame.wayBack frame.cr.swap ∧ f.pf = 1 ∧ f.info = none

/-- `handle_test` sends an echo of the frame through the interface `i`. -/
def Echoes (i : Nat) (frame : Frame) (w : World) : Prop :=
  ∃ r w' bs, M.handleTest i frame w = .ok (r, w') ∧ w'.sent = w.sent ++ [(i, bs)] ∧ EchoOf frame bs

/-- The control field of UA with the F bit. -/
abbrev uaFinal : Nat := FrameType.ua.code ||| PATTY_AX25_FRAME_FINAL <<< 4

/-- The frame that `reply_test` sends. -/
def testReply (frame : Frame) : Bytes :=
  wireOctets frame.src frame.dest frame.wayBack frame.cr.swap .normal uaFinal []

theorem kept_uaFinal (format : FrameFormat) : format.kept uaFinal = uaFinal := by
  cases format <;> rfl

/-- What is decoded of an UA frame. -/
theorem decodeControl_ua {format : FrameFormat} {off next : Nat}
    (hread : readControl format buf off = (uaFinal, next)) : ∃ f',
    decodeControl f format buf off len = some (f', next) ∧ SameStations f f' ∧ f'.type = .ua ∧
      f'.pf = 1 ∧ f'.info = none := by
  have hclass : f.classed uaFinal format = some { f with
      control := uaFinal, format, nr := 0, ns := 0, pf := 1, type := .ua
      proto := PATTY_AX25_PROTO_UNKNOWN, info := none, infolen := 0 } := rfl
  rw [decodeControl_eq, hread]
  dsimp only
  rw [hclass]
  exact ⟨_, rfl, ⟨rfl, rfl, rfl, rfl, rfl⟩, rfl, rfl, rfl⟩

theorem testReply_ua (h : StationsFit frame.src frame.dest frame.wayBack) : UaTo frame (testReply frame) := by
  intro frame₁ format rest
  have hwire : testReply frame =
      wireOctets frame.src frame.dest frame.wayBack frame.cr.swap format uaFinal [] := by
    unfold testReply wireOctets
    rw [encodeControl_controlU .normal rfl, encodeControl_controlU format rfl]
  rw [hwire]
  obtain ⟨f, next, hf, hfrom, hread, -, -⟩ := decode_header frame₁ rest h frame.cr.swap format uaFinal [] _ rfl
  rw [kept_uaFinal] at hread
  obtain ⟨f', hf', hsame, htype, hpf, hinfo⟩ := decodeControl_ua (f := f) hread
  exact ⟨f', next, by rw [decodeFrame, hf]; exact hf', htype, hfrom.mono hsame, hpf, hinfo⟩

/-- An UA frame is no echo. -/
theorem UaTo.not_echo (h : UaTo frame bs) : ¬EchoOf frame bs := by
  rintro ⟨frame₁, format, rest, f, next, hf, htype, -⟩
  obtain ⟨f', next', hf', hua, -⟩ := h frame₁ format rest
  cases hf.symm.trans hf'
  rw [htype] at hua
  cases hua

/-- The driver takes the next frame. -/
def Sys.Takes (sys : Sys) : Prop := sys.send = [] ∨ ∃ l, sys.send = .sent :: l

namespace M

theorem ifSent_returns {iface : Iface} : Keeps (fun _ => True) (fun _ => False) (ifSent i iface bs) := by
  refine Keeps.bind (fun _ h => h) fun _ => (Keeps.forEach fun fd _ => ?_).bind fun _ =>
    .ite (fun _ => .pure) fun _ => .pure
  refine Keeps.bind (fun w _ => ?_) fun _ => .ite (fun _ => .pure) fun _ => .pure
  rw [writePty, wp_bind, wp_answer]
  refine ⟨fun _ => trivial, ?_⟩
  rintro (_ | e) as -
  · trivial
  · trivial

/-- What a driver takes is sent. -/
theorem ifSend_takes {iface : Iface} (hi : w.ifaces[i]? = some iface) (hsys : w.sys.Takes) :
    wp (ifSend i bs) (fun _ w' => w'.sent = w.sent ++ [(i, bs)]) (fun _ => False) w := by
  have hsent {w₁ : World} (h₁ : w₁.sent = w.sent) : wp (do
      emit (.ifSend i bs)
      ifSent i iface bs) (fun _ w' => w'.sent = w.sent ++ [(i, bs)]) (fun _ => False) w₁ := by
    rw [wp_bind]
    refine (ifSent_returns _ trivial).and (silent_ifSent.wp (E := fun _ => True) ?_ fun _ => trivial) |>.post
      fun _ _ h => h.2
    intro _ w₂ h₂
    rw [h₂, World.sent, List.filterMap_append, ← World.sent, h₁]
    rfl
  rw [ifSend, wp_bind, wp_getIface]
  refine ⟨fun iface' hi' => ?_, fun hnone => by simp [hi] at hnone⟩
  obtain rfl := Option.some.inj (hi.symm.trans hi')
  rw [wp_bind, wp_answer]
  refine ⟨fun _ => hsent rfl, fun a as has => ?_⟩
  rcases hsys with hnil | ⟨l, hl⟩
  · rw [hnil] at has
    cases has
  · rw [hl] at has
    cases has
    exact hsent rfl

/-- What `reply_test` encodes, if it is sent. -/
theorem encodeReplyTo_test (h : frame.hops ≤ PATTY_AX25_MAX_HOPS) {info : Bytes} {r : Option Bytes}
    (hr : encodeReplyTo frame uaFinal PATTY_AX25_PROTO_NONE info size = .ok r) :
    r = some (testReply frame) := by
  by_cases hroom : replyRoom frame uaFinal info ≤ size
  · rw [encodeReplyTo_wire .normal _ info h rfl hroom] at hr
    exact (Except.ok.inj hr).symm
  · have hshort : size < (2 + frame.hops) * 7 + 1 := by
      have hui : controlUI uaFinal = false := rfl
      rw [replyRoom, hui, if_neg Bool.false_ne_true] at hroom
      omega
    rw [encodeReplyTo, if_pos hshort] at hr
    cases hr

theorem handleTest_sent (h : frame.hops ≤ PATTY_AX25_MAX_HOPS) : wp (handleTest i frame)
    (fun _ w' => w'.sent = w.sent ∨ w'.sent = w.sent ++ [(i, testReply frame)]) (fun _ => True) w := by
  rw [handleTest, wp_bind, wp_getIface]
  refine ⟨fun iface hi => ?_, fun _ => trivial⟩
  rw [wp_ite]
  refine ⟨fun _ => .inl rfl, fun _ => ?_⟩
  rw [replyTest, replyTo, wp_bind, wp_getIface]
  refine ⟨fun iface hi => ?_, fun _ => trivial⟩
  rw [wp_bind, wp_lift]
  refine ⟨fun r hr => ?_, fun _ _ => trivial⟩
  obtain rfl := encodeReplyTo_test h hr
  dsimp only
  rw [wp_bind, setIface, wp_modify]
  exact ifSend_sent

/-- A TEST frame for the interface is answered. -/
theorem handleTest_answers {iface : Iface} (h : frame.hops ≤ PATTY_AX25_MAX_HOPS)
    (hi : w.ifaces[i]? = some iface) (haddr : iface.addrMatch frame.dest)
    (hroom : 7 * (2 + frame.hops) + 1 ≤ iface.mtu) (hsys : w.sys.Takes) : wp (handleTest i frame)
    (fun _ w' => w'.sent = w.sent ++ [(i, testReply frame)]) (fun _ => False) w := by
  have hgot {iface' : Iface} (hi' : w.ifaces[i]? = some iface') : iface' = iface :=
    Option.some.inj (hi'.symm.trans hi)
  rw [handleTest, wp_bind, wp_getIface]
  refine ⟨fun iface' hi' => ?_, fun hnone => by simp [hi] at hnone⟩
  rw [hgot hi', haddr, wp_ite]
  refine ⟨fun hfalse => absurd hfalse Bool.false_ne_true, fun _ => ?_⟩
  rw [replyTest, replyTo, wp_bind, wp_getIface]
  refine ⟨fun iface' hi' => ?_, fun hnone => by simp [hi] at hnone⟩
  have hfits : replyRoom frame uaFinal frame.infoBytes ≤ iface'.mtu := by
    rw [hgot hi', replyRoom]
    exact hroom
  rw [encodeReplyTo_wire .normal _ _ h rfl hfits, wp_bind, wp_lift_ok]
  dsimp only
  rw [wp_bind, setIface, wp_modify]
  have hset : (w.ifaces.modify i fun iface => { iface with
      txBuf := iface.txBuf.store 0 (testReply frame) })[i]? =
        some { iface with txBuf := iface.txBuf.store 0 (testReply frame) } := by simp [hi]
  exact ifSend_takes hset hsys

end M

theorem not_echoes_of_fit (h : frame.hops ≤ PATTY_AX25_MAX_HOPS)
    (hfit : StationsFit frame.src frame.dest frame.wayBack) : ¬Echoes i frame w := by
  rintro ⟨r, w', bs, hrun, hsent, hecho⟩
  rcases (M.handleTest_sent h).ok hrun with hnone | hreply
  · rw [hsent] at hnone
    simp at hnone
  · have hbs : bs = testReply frame := by simpa using hsent.symm.trans hreply
    exact (testReply_ua hfit).not_echo (hbs ▸ hecho)

/-- No TEST frame is echoed: the answer to one is an UA frame. -/
theorem not_echoes (frame₀ frame : Frame) (format : FrameFormat) (buf : Mem) (len n i : Nat) (w : World)
    (h : decodeFrame frame₀ format buf len = some (frame, n)) :
    ¬Echoes i frame w ∧ ∀ iface, w.ifaces[i]? = some iface → iface.addrMatch frame.dest →
      7 * (2 + frame.hops) + 1 + frame.infoBytes.length ≤ iface.mtu → w.sys.Takes →
      ∃ r w' bs, M.handleTest i frame w = .ok (r, w') ∧ w'.sent = w.sent ++ [(i, bs)] ∧ UaTo frame bs := by
  obtain ⟨hhops, hfit⟩ := stationsFit_of_decodeFrame h
  refine ⟨not_echoes_of_fit hhops hfit, fun iface hi haddr hmtu hsys => ?_⟩
  have hanswers := M.handleTest_answers hhops hi haddr (by omega) hsys
  rcases hrun : M.handleTest i frame w with e | ⟨r, w'⟩
  · exact absurd (hanswers.error hrun) id
  · exact ⟨r, w', _, rfl, hanswers.ok hrun, testReply_ua hfit⟩

/-- The octets of a TEST frame with one octet of information. -/
def testOctets : Mem := .ofBytes (sampleAddress ++ [0xf3, 0x61]) fun _ => 0

theorem testOctets_isSome : (decodeFrame .blank .normal testOctets 16).isSome := by decide

/-- What is decoded of them. -/
def testFrame : Frame × Nat := (decodeFrame .blank .normal testOctets 16).get testOctets_isSome

theorem decodeFrame_testOctets : decodeFrame .blank .normal testOctets 16 = some (testFrame.1, testFrame.2) :=
  (Option.some_get testOctets_isSome).symm

/-- The frame is for the address of the interface. -/
theorem addrMatch_testFrame : sampleIface.addrMatch testFrame.1.dest := by decide

theorem testFrame_fits :
    7 * (2 + testFrame.1.hops) + 1 + testFrame.1.infoBytes.length ≤ sampleIface.mtu := by decide

theorem not_echoes_sample : ¬Echoes 0 testFrame.1 (.withSock acceptedSock) ∧ ∃ r w' bs,
    M.handleTest 0 testFrame.1 (.withSock acceptedSock) = .ok (r, w') ∧
      w'.sent = (World.withSock acceptedSock).sent ++ [(0, bs)] ∧ UaTo testFrame.1 bs := by
  obtain ⟨hno, hua⟩ := not_echoes .blank testFrame.1 .normal testOctets 16 testFrame.2 0
    (.withSock acceptedSock) decodeFrame_testOctets
  exact ⟨hno, hua sampleIface rfl addrMatch_testFrame testFrame_fits (.inl rfl)⟩

/-- The TEST frame is not echoed. -/
theorem not_echoes_test : ¬∀ (frame₀ frame : Frame) (format : FrameFormat) (buf : Mem) (len n i : Nat)
    (w : World) (iface : Iface), decodeFrame frame₀ format buf len = some (frame, n) →
    frame.type = .test → w.ifaces[i]? = some iface → iface.addrMatch frame.dest →
    7 * (2 + frame.hops) + 1 + frame.infoBytes.length ≤ iface.mtu → w.sys.Takes → Echoes i frame w := by
  intro h
  obtain ⟨hhops, hfit⟩ := stationsFit_of_decodeFrame decodeFrame_testOctets
  exact not_echoes_of_fit hhops hfit
    (h .blank testFrame.1 .normal testOctets 16 testFrame.2 0 (.withSock acceptedSock) sampleIface
      decodeFrame_testOctets (by decide) rfl addrMatch_testFrame testFrame_fits (.inl rfl))

end Patty
