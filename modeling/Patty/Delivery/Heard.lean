import Patty.Fits
import Patty.Wire.Reply
import Patty.Wire.Sequence

/-! # What the other end of a connection hears

A connection that is open sends I frames and S frames, and what of its socket these depend on is little: the
addresses, the mode, the PID and V(R) (`Face`). The other end, in the same mode, finds in their octets what they were
sent to say, as long as the numbers fit the masks of its decoder (`Utters.heard`). -/

namespace Patty

open Prog

/-- What of a socket the frames of its connection depend on. -/
structure Face where
  place : Place
  proto : Nat
  hops : Nat
  repeaters : Fin PATTY_AX25_MAX_HOPS → Addr
  nMaxlenTx : Nat
  ioBuf : Option Nat
  vr : Nat

def Sock.face (s : Sock) : Face := ⟨s.place, s.proto, s.hops, s.repeaters, s.nMaxlenTx, s.ioBuf, s.vr⟩

/-- The numbers below it are read by the other end as they are: the modulus, but 64 in SABME. -/
def Sock.limit (s : Sock) : Nat := min s.slots 64

/-- The type of an S frame. -/
def FrameType.isS : FrameType → Bool
  | rr | rnr | rej | srej => true
  | _ => false

theorem FrameType.isS_iff {type : FrameType} :
    type.isS ↔ type = .rr ∨ type = .rnr ∨ type = .rej ∨ type = .srej := by
  cases type <;> simp [isS]

/-- A frame that a socket sends while its connection is open: an I frame with a number and a payload of `data`, or an
S frame. -/
inductive Utters (c : Face) (data : Nat → Bytes → Prop) : Bytes → Prop
  | info {s : Sock} {seq : Nat} {bs : Bytes} : s.face = c → data seq bs →
    Utters c data (s.frameOctets .command (s.controlI seq) (UInt8.ofNat s.proto) bs)
  | super {s : Sock} {type : FrameType} {cr : FrameCr} {pf : Nat} : s.face = c → type.isS → pf ≤ 1 →
    Utters c data (s.frameOctets cr (s.controlS type pf) 0 [])

theorem Utters.mono {c : Face} {data data' : Nat → Bytes → Prop} {octets : Bytes} (h : Utters c data octets)
    (hdata : ∀ seq bs, data seq bs → data' seq bs) : Utters c data' octets := by
  induction h with
  | info hface hd => exact .info hface (hdata _ _ hd)
  | super hface htype hpf => exact .super hface htype hpf

/-- Whatever follows them in memory, the octets are decoded as a frame from `src` to `dest` with the property `P`. -/
def Heard (format : FrameFormat) (dest src : Addr) (P : Frame → Prop) (octets : Bytes) : Prop :=
  ∀ rest, ∃ f next, decodeFrame .blank format (.ofBytes octets rest) octets.length = some (f, next) ∧
    f.dest.Same dest ∧ f.src.Same src ∧ P f

theorem Heard.mono {format : FrameFormat} {dest src : Addr} {P P' : Frame → Prop} {octets : Bytes}
    (h : Heard format dest src P octets) (hP : ∀ f, P f → P' f) : Heard format dest src P' octets := by
  intro rest
  obtain ⟨f, next, hdec, hdest, hsrc, hf⟩ := h rest
  exact ⟨f, next, hdec, hdest, hsrc, hP f hf⟩

/-- The numbers are below the limit, and the payloads are neither empty nor too long. -/
structure Speakable (s : Sock) (data : Nat → Bytes → Prop) : Prop where
  addressed : s.Addressed
  mode : s.mode ≠ .dm
  vr : s.vr < s.limit
  small : s.nMaxlenTx + 73 < 2 ^ 64
  data : ∀ seq bs, data seq bs → seq < s.limit ∧ bs ≠ [] ∧ bs.length ≤ s.nMaxlenTx

variable {s s' : Sock} {data : Nat → Bytes → Prop} {cr : FrameCr} {control : Nat} {proto : UInt8}
  {info octets : Bytes}

theorem Sock.lt_slots {n : Nat} (h : n < s.limit) : n < s.slots := h.trans_le (Nat.min_le_left ..)

theorem Sock.lt_six {n : Nat} (h : n < s.limit) : n < 64 := h.trans_le (Nat.min_le_right ..)

/-- The face says all that the frames of a connection depend on but for V(S), V(A) and the flow. -/
theorem Speakable.congr (h : Speakable s data) (hface : s'.face = s.face) : Speakable s' data := by
  obtain ⟨hplace, hproto, hhops, hrepeaters, hlen, -, hvr⟩ := Face.mk.inj hface
  obtain ⟨-, -, hmode, hlocal, hremote, -⟩ := Place.mk.inj hplace
  have hlimit : s'.limit = s.limit := by rw [Sock.limit, Sock.limit, Sock.slots, Sock.slots, hmode]
  refine ⟨⟨hremote ▸ h.addressed.remote, hlocal ▸ h.addressed.localAddr, hhops ▸ h.addressed.hops, ?_⟩,
    hmode ▸ h.mode, ?_, hlen ▸ h.small, ?_⟩
  · rw [hhops, hrepeaters]
    exact h.addressed.repeaters
  · rw [hvr, hlimit]
    exact h.vr
  · rw [hlimit, hlen]
    exact h.data

/-- The stations of a frame that a socket has sent are its own. -/
theorem decodeFrame_from {format : FrameFormat} {rest : Mem} {f : Frame} {next : Nat} (h : s.Addressed)
    (hdec : decodeFrame .blank format (.ofBytes (s.frameOctets cr control proto info) rest)
      (s.frameOctets cr control proto info).length = some (f, next)) :
    f.dest.Same s.remote ∧ f.src.Same s.localAddr := by
  have haddr := @length_addressField cr s h.hops
  have hoctets : s.frameOctets cr control proto info = s.addressField cr ++ (s.controlOctets control ++
      ((if !info.isEmpty && controlI control then [proto] else []) ++ info)) := by
    rw [Sock.frameOctets, frameHeader_eq]
    simp only [List.append_assoc]
  have hread : (Mem.ofBytes (s.frameOctets cr control proto info) rest).read 0 (7 * (2 + s.hops)) =
      s.addressField cr := by
    rw [hoctets, ← haddr]
    exact Mem.read_ofBytes_mid [] (s.addressField cr) _ rest
  have hlen : 7 * (2 + s.hops) ≤ (s.frameOctets cr control proto info).length := by
    rw [hoctets, ← haddr, List.length_append]
    exact Nat.le_add_right ..
  obtain ⟨f₀, hf₀, hfrom⟩ := decodeAddress_addressField .blank h hlen hread
  rw [decodeFrame, hf₀] at hdec
  have hf := hfrom.mono (decodeControl_same hdec)
  exact ⟨hf.dest, hf.src⟩

/-- Frames are short enough for their length to be counted. -/
theorem Speakable.length_lt (h : Speakable s data) (hinfo : info.length ≤ s.nMaxlenTx) :
    (s.frameOctets cr control proto info).length < 2 ^ 64 := by
  have hhops : s.hops ≤ 8 := h.addressed.hops
  have hsmall := h.small
  rw [Sock.frameOctets, Sock.length_frame h.addressed.hops]
  unfold Sock.unchecked
  split_ifs <;> omega

theorem Utters.heard (hs : Speakable s data) (h : Utters s.face data octets) :
    (∃ seq bs, data seq bs ∧ Heard s.format s.remote s.localAddr (fun f => f.nr = s.vr ∧ f.type = .i ∧
      f.proto = UInt8.ofNat s.proto ∧ f.ns = seq ∧ f.infoBytes = bs) octets) ∨
    Heard s.format s.remote s.localAddr (fun f => f.nr = s.vr ∧ f.type.isS) octets := by
  cases h with
  | @info s' seq bs hface hdata =>
    have hs' := hs.congr hface
    obtain ⟨hplace, hproto, -, -, -, -, hvr⟩ := Face.mk.inj hface
    obtain ⟨-, -, hmode, hlocal, hremote, -⟩ := Place.mk.inj hplace
    have hformat : s'.format = s.format := by rw [Sock.format, Sock.format, hmode]
    obtain ⟨hseq, hne, hlen⟩ := hs'.data seq bs hdata
    obtain ⟨hfits, hI, -, hiff⟩ := controlI_fields hs'.mode (Sock.lt_slots hs'.vr) (Sock.lt_slots hseq)
    obtain ⟨hnr, hns⟩ := hiff.mpr fun _ => ⟨Sock.lt_six hs'.vr, Sock.lt_six hseq⟩
    refine .inl ⟨seq, bs, hdata, fun rest => ?_⟩
    obtain ⟨f, hdec, hf, hinfo⟩ := decodeFrame_i .blank .command (UInt8.ofNat s'.proto) rest hs'.addressed hfits hI hne
    obtain ⟨hdest, hsrc⟩ := decodeFrame_from hs'.addressed hdec
    refine ⟨f, _, hformat ▸ hdec, hremote ▸ hdest, hlocal ▸ hsrc, (hf.nr.trans hnr).trans hvr, hf.type, ?_,
      hf.ns.trans hns, (hinfo (hs'.length_lt hlen)).2⟩
    rw [hf.proto, hproto]
  | @super s' type cr pf hface htype hpf =>
    have hs' := hs.congr hface
    obtain ⟨hplace, -, -, -, -, -, hvr⟩ := Face.mk.inj hface
    obtain ⟨-, -, hmode, hlocal, hremote, -⟩ := Place.mk.inj hplace
    have hformat : s'.format = s.format := by rw [Sock.format, Sock.format, hmode]
    obtain ⟨hfits, hS, hcode, -, hiff⟩ :=
      controlS_fields (FrameType.isS_iff.mp htype) hs'.mode (Sock.lt_slots hs'.vr) hpf
    have hknown : type ≠ .unknown := by
      rintro rfl
      cases htype
    refine .inr fun rest => ?_
    obtain ⟨f, hdec, hf, -, hnr, -⟩ := decodeFrame_s .blank cr 0 rest hs'.addressed hfits hS hcode hknown
    obtain ⟨hdest, hsrc⟩ := decodeFrame_from hs'.addressed hdec
    refine ⟨f, _, hformat ▸ hdec, hremote ▸ hdest, hlocal ▸ hsrc, ?_, hf ▸ htype⟩
    rw [hnr, hiff.mpr fun _ => Sock.lt_six hs'.vr]
    exact hvr

end Patty
