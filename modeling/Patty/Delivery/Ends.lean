import Patty.Delivery.Arrival
import Patty.Registry
import Patty.Window

/-! # The end of a connection

A socket whose connection is open is an `End`, and stays one through the turns of the server and the frames that arrive
for it, as long as the connection is open (`End.turn`, `End.arrival`). -/

namespace Patty

open Prog

/-- The socket of an open connection, with its slots in order and its numbers below the modulus. -/
structure Sock.End (s : Sock) : Prop where
  type : s.type = .stream
  state : s.state = .established
  mode : s.mode ≠ .dm
  addressed : s.Addressed
  small : s.nMaxlenTx + 73 < 2 ^ 64
  ioBuf : s.ioBuf ≠ none
  /-- Its PID is not that of segments. -/
  proto : UInt8.ofNat s.proto ≠ PATTY_AX25_PROTO_FRAGMENT
  slots : ∃ buf, s.HasSlots buf
  vs : s.vs < s.slots
  va : s.va < s.slots
  vr : s.vr < s.slots

/-- The numbers of the frames that the socket sends next are understood: the modulus is 8, or V(S) and V(R) are so far
from 64 that no bit of them is lost. -/
def Sock.Low (s : Sock) : Prop := s.slots ≤ 64 ∨ s.vs < 64 ∧ s.vr + 1 < 64

instance (s : Sock) : Decidable s.Low := inferInstanceAs (Decidable (_ ∨ _))

/-- What a connection keeps of its socket. -/
structure Sock.Steady (s s' : Sock) : Prop where
  face : s'.face = { s.face with vr := s'.vr }
  nWindowTx : s'.nWindowTx = s.nWindowTx

/-- The connection of `p` is open, and frames for it find it. -/
structure World.Connects (w : World) (p : Ptr) (s : Sock) : Prop where
  heap : w.heap p = some s
  state : s.state = .established
  lookup : w.socksRemote.lookup s.pairKey = some p

/-- A received frame that is an I frame, but no segment, or an S frame. -/
def Frame.Plain (f : Frame) : Prop := f.type = .i ∧ f.proto ≠ PATTY_AX25_PROTO_FRAGMENT ∨ f.type.isS

variable {p : Ptr} {w w' : World} {s s' s'' : Sock} {f : Frame} {t : Turn} {sys : Sys} {i : Nat}

/-- The types of frames for an open connection. -/
theorem Frame.Plain.type (h : f.Plain) : f.type = .i ∨ f.type = .rr ∨ f.type = .rnr ∨ f.type = .rej ∨ f.type = .srej :=
  h.imp And.left FrameType.isS_iff.mp

theorem Frame.Plain.acks (h : f.Plain) : f.type.acks := by
  obtain h | h | h | h | h := h.type
  all_goals
    rw [h]
    rfl

theorem Frame.Plain.resets (h : f.Plain) : f.type.resets = false := by
  obtain h | h | h | h | h := h.type
  all_goals
    rw [h]
    rfl

namespace Sock

theorem Steady.refl (s : Sock) : s.Steady s := ⟨rfl, rfl⟩

theorem Steady.trans (h : s.Steady s') (h' : s'.Steady s'') : s.Steady s'' := by
  refine ⟨?_, h'.nWindowTx.trans h.nWindowTx⟩
  rw [h'.face, h.face]

theorem Steady.place (h : s.Steady s') : s'.place = s.place := congrArg Face.place h.face

theorem Steady.mode (h : s.Steady s') : s'.mode = s.mode := congrArg Place.mode h.place

theorem Steady.slots (h : s.Steady s') : s'.slots = s.slots := slots_congr h.mode

theorem Steady.limit (h : s.Steady s') : s'.limit = s.limit := by
  rw [Sock.limit, Sock.limit, h.slots]

theorem Steady.format (h : s.Steady s') : s'.format = s.format := by
  rw [Sock.format, Sock.format, h.mode]

theorem Steady.fd (h : s.Steady s') : s'.fd = s.fd := congrArg Place.fd h.place

theorem Steady.localAddr (h : s.Steady s') : s'.localAddr = s.localAddr := congrArg Place.localAddr h.place

theorem Steady.remote (h : s.Steady s') : s'.remote = s.remote := congrArg Place.remote h.place

theorem Low.vs (h : s.Low) (hvs : s.vs < s.slots) : s.vs < s.limit := by
  unfold limit
  obtain h | ⟨h, -⟩ := h
  · omega
  · omega

theorem Low.vr (h : s.Low) (hvr : s.vr < s.slots) : s.vr < s.limit := by
  unfold limit
  obtain h | ⟨-, h⟩ := h
  · omega
  · omega

/-- The number after V(R) is understood as well. -/
theorem Low.vr_succ (h : s.Low) : (s.vr + 1) % s.slots < s.limit := by
  have hlt := Nat.mod_lt (s.vr + 1) s.slots_pos
  have hle := Nat.mod_le (s.vr + 1) s.slots
  unfold limit
  obtain h | ⟨-, h⟩ := h
  · omega
  · omega

namespace End

variable {watched : Bool} {data : Nat → Bytes → Prop}

/-- The end keeps what the face and the link say. -/
theorem of_same (E : s.End) (hface : s'.face = { s.face with vr := s'.vr }) (hsame : s.SameKind s')
    (hslots : ∃ buf, s'.HasSlots buf) (hvs : s'.vs < s'.slots) (hva : s'.va < s'.slots) (hvr : s'.vr < s'.slots) :
    s'.End where
  type := hsame.type.trans E.type
  state := hsame.state.trans E.state
  mode := hsame.mode ▸ E.mode
  addressed := by
    obtain ⟨hplace, -, hhops, hrepeaters, -⟩ := Face.mk.inj hface
    obtain ⟨-, -, -, hlocal, hremote, -⟩ := Place.mk.inj hplace
    refine ⟨hremote ▸ E.addressed.remote, hlocal ▸ E.addressed.localAddr, hhops ▸ E.addressed.hops, ?_⟩
    rw [hhops, hrepeaters]
    exact E.addressed.repeaters
  small := hsame.nMaxlenTx ▸ E.small
  ioBuf := by
    have hio : s'.ioBuf = s.ioBuf := congrArg Face.ioBuf hface
    exact hio ▸ E.ioBuf
  proto := hsame.proto ▸ E.proto
  slots := hslots
  vs := hvs
  va := hva
  vr := hvr

theorem speakable (E : s.End) (hvr : s.vr < s.limit)
    (hdata : ∀ seq bs, data seq bs → seq < s.limit ∧ bs ≠ [] ∧ bs.length ≤ s.nMaxlenTx) : Speakable s data :=
  ⟨E.addressed, E.mode, hvr, E.small, hdata⟩

/-- What a turn sends is understood. -/
theorem turnData (E : s.End) (hlow : s.Low) {seq : Nat} {bs : Bytes} (h : s.TurnData watched t seq bs) :
    seq < s.limit ∧ bs ≠ [] ∧ bs.length ≤ s.nMaxlenTx := by
  obtain ⟨buf, H⟩ := E.slots
  obtain ⟨rfl, hpay | ⟨hreads, rfl⟩⟩ := h
  · exact ⟨hlow.vs E.vs, H.payload_length hpay⟩
  · exact ⟨hlow.vs E.vs, hreads.data, t.data_length s⟩

/-! ## Turns -/

/-- What a turn that leaves the connection open has done. -/
structure AfterTurn (s : Sock) (watched : Bool) (t : Turn) (w : World) (s' : Sock) (w' : World) : Prop where
  isEnd : s'.End
  steady : s.Steady s'
  vr : s'.vr = s.vr
  turned : Turned s watched t w s' w'
  effect : TurnEffect s watched t s'.link

theorem turn (E : s.End) (hp : w.heap p = some s) (hign : ¬t.sys.ignores)
    (h : (M.handleSock p t.elapsed t.ready t.inp).after { w with sys := t.sys } = some w')
    (hp' : w'.heap p = some s') (hopen : s'.state = .established) :
    AfterTurn s (w.fdsWatch s.fd) t w s' w' := by
  obtain ⟨buf, H⟩ := E.slots
  have hturned : Turned s (w.fdsWatch s.fd) t { w with sys := t.sys } s' w' :=
    (M.handleSock_turned (w := { w with sys := t.sys }) hp H E.mode E.vs E.type E.state E.ioBuf hign).after h
      s' hp' hopen
  have heffect : TurnEffect s (w.fdsWatch s.fd) t s'.link :=
    (M.handleSock_spec (w := { w with sys := t.sys }) hp H E.mode E.type E.state rfl).after h s' hp' hopen
  have hsame := heffect.same
  have hslots : s'.slots = s.slots := slots_congr hsame.mode
  have hvr : s'.vr = s.vr := congrArg Face.vr hturned.face
  have hface : s'.face = { s.face with vr := s'.vr } := by
    rw [hvr]
    exact hturned.face
  obtain ⟨hslots', hvs, -⟩ := stores_turn H E.vs
    (fun _ h => absurd h List.not_mem_nil : ∀ e ∈ ([] : List Sent), s.Stores e)
    (fun _ _ _ h => absurd h List.not_mem_nil) heffect
  refine ⟨E.of_same hface hsame hslots' hvs ?_ ?_, ⟨hface, hsame.nWindowTx⟩, hvr, ?_, heffect⟩
  · rw [heffect.va, hslots]
    exact E.va
  · rw [hvr, hslots]
    exact E.vr
  · exact ⟨hturned.face, hturned.written, hturned.speaks, hturned.read⟩

/-! ## Arrivals -/

/-- What a frame that leaves the connection open has done. -/
structure AfterFrame (s : Sock) (f : Frame) (w : World) (s' : Sock) (w' : World) : Prop where
  isEnd : s'.End
  steady : s.Steady s'
  answered : Answered s f w s' w'
  acked : ∃ s₁, s.Acked f s₁ ∧ s'.link = s₁.link

end End

end Sock

namespace M

/-- A frame from the other end is handled by the socket of the connection. -/
theorem handleFrame_eq {buf : Mem} {len next : Nat} (hp : w.heap p = some s)
    (hlook : w.socksRemote.lookup s.pairKey = some p)
    (hdec : decodeFrame .blank s.format buf len = some (f, next)) (hdest : f.dest.Same s.localAddr)
    (hsrc : f.src.Same s.remote) :
    handleFrame i buf len w = handleType i (some p) f buf next len { w with errno := .zero } := by
  rw [decodeFrame] at hdec
  cases haddr : decodeAddress .blank buf len with
  | none =>
    rw [haddr] at hdec
    cases hdec
  | some r =>
    obtain ⟨f₀, off⟩ := r
    rw [haddr] at hdec
    dsimp only at hdec
    have hsame := decodeControl_same hdec
    have hkey : hashAddrpair f₀.dest f₀.src = s.pairKey := by
      rw [← hsame.dest, ← hsame.src]
      exact hdest.hashAddrpair hsrc
    have hfind : sockByAddrpair f₀.dest f₀.src w = .ok (some p, w) := by
      rw [← hkey] at hlook
      exact congrArg (fun r => Except.ok (r, w)) hlook
    have hformat : formatOf (some p) w = .ok (s.format, w) := by
      rw [formatOf, bind_ok (deref_ok hp)]
      rfl
    rw [handleFrame, haddr]
    dsimp only
    rw [bind_ok hfind, bind_ok hformat, hdec]
    rfl

end M

namespace Sock.End

theorem arrival {buf : Mem} {len next : Nat} (E : s.End) (hserves : w.Connects p s) (hpty : ¬sys.refuses)
    (hdec : decodeFrame .blank s.format buf len = some (f, next)) (hdest : f.dest.Same s.localAddr)
    (hsrc : f.src.Same s.remote) (hnr : f.nr < s.slots) (hplain : f.Plain)
    (h : (M.handleFrame i buf len).after { w with sys } = some w') (hp' : w'.heap p = some s')
    (hopen : s'.state = .established) : AfterFrame s f w s' w' := by
  obtain ⟨slots, H⟩ := E.slots
  have heq := M.handleFrame_eq (i := i) (w := { w with sys }) hserves.heap hserves.lookup hdec hdest hsrc
  have hrun : (M.handleType i (some p) f buf next len).after { w with sys, errno := .zero } = some w' := by
    rw [after, ← heq]
    exact h
  have hacks := hplain.acks
  have hanswer : wp (M.handleType i (some p) f buf next len)
      (fun _ w' => ∃ s', w'.heap p = some s' ∧ Answered s f { w with sys, errno := .zero } s' w') (fun _ => True)
      { w with sys, errno := .zero } :=
    M.handleType_answered hserves.heap H E.mode E.state E.va hnr hplain hpty
  have heffects : wp (M.handleType i (some p) f buf next len) (fun _ w' => WhileOpen p (FrameEffect s f) w')
      (fun _ => True) { w with sys, errno := .zero } :=
    M.acks_spec hserves.heap H E.state E.va hnr hacks
  obtain ⟨s₁, hp₁, hanswered⟩ := hanswer.after hrun
  obtain rfl := Option.some.inj (hp₁.symm.trans hp')
  have heffect : FrameEffect s f s₁.link := heffects.after hrun s₁ hp' hopen
  have hsame := heffect.same
  have hvr : s₁.vr = if s.Expects f then (s.vr + 1) % s.slots else s.vr := congrArg Face.vr hanswered.face
  have hface : s₁.face = { s.face with vr := s₁.vr } := by
    rw [hvr]
    exact hanswered.face
  obtain ⟨hslots', hvs, hva, -⟩ := stores_frame sys i buf next len H E.vs E.va hnr
    (fun _ h => absurd h List.not_mem_nil : ∀ e ∈ ([] : List Sent), s.Stores e) (fun _ => rfl)
    (fun _ => .inr fun _ h => absurd h List.not_mem_nil) heffect
  refine ⟨E.of_same hface hsame hslots' hvs hva ?_, ⟨hface, hsame.nWindowTx⟩, ?_, ?_⟩
  · rw [hvr, slots_congr hsame.mode]
    split
    · exact Nat.mod_lt _ s.slots_pos
    · exact E.vr
  · exact ⟨hanswered.face, hanswered.written, hanswered.speaks⟩
  · generalize hl : s₁.link = l at heffect
    cases heffect with
    | nothing hno =>
      rw [hno] at hacks
      cases hacks
    | acked _ hacked => exact ⟨_, hacked, rfl⟩
    | reset hresets =>
      rw [hplain.resets] at hresets
      cases hresets

/-- The answer to a frame has a V(R) that is understood. -/
theorem AfterFrame.vr (A : AfterFrame s f w s' w') (E : s.End) (hlow : s.Low) : s'.vr < s'.limit := by
  rw [A.steady.limit, show s'.vr = _ from congrArg Face.vr A.answered.face]
  split
  · exact hlow.vr_succ
  · exact hlow.vr E.vr

end Sock.End

end Patty
