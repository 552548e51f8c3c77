import Patty.Receive

/-! # What places a socket

A connection is found by the state, the mode and the addresses of its socket. Most functions of `sock.c`
change none of these (`Sock.place`). -/

namespace Patty

open Prog

/-- The part of a socket that says which connection it is for, and how far that is. -/
structure Place where
  type : SockType
  state : SockState
  mode : SockMode
  localAddr : Addr
  remote : Addr
  fd : Nat

def Sock.place (s : Sock) : Place := ⟨s.type, s.state, s.mode, s.localAddr, s.remote, s.fd⟩

namespace Sock

variable {s s' : Sock}

theorem clearSlots_eq : ∀ {n i : Nat} {s s' : Sock}, s.clearSlots n i = .ok s' →
    ∃ slots, s' = { s with txSlots := slots }
  | 0, _, s, _, h => by
    cases h
    exact ⟨s.txSlots, rfl⟩
  | n + 1, i, s, s', h => by
    rw [clearSlots] at h
    obtain ⟨⟨buf, off⟩, -, h⟩ := Except.bind_eq_ok h
    dsimp only at h
    obtain ⟨slots, rfl⟩ := clearSlots_eq h
    exact ⟨slots, rfl⟩

theorem reset_place (h : s.reset = .ok s') : s'.place = s.place := by
  rw [reset] at h
  obtain ⟨s₁, hclear, h⟩ := Except.bind_eq_ok h
  obtain ⟨slots, rfl⟩ := clearSlots_eq hclear
  cases h
  rfl

theorem frameAck_place {frame : Frame} (h : s.frameAck frame = .ok s') : s'.place = s.place := by
  obtain ⟨slots, va, vs, t1, retries, rfl⟩ := frameAck_eq h
  rfl

/-- The negotiation of the HDLC functions changes their flags only. -/
theorem negotiateHdlc_eq (s : Sock) (params : Params) :
    ∃ flags, (s.negotiateHdlc params).2.1 = { s with flagsHdlc := flags } := by
  have hflags {c : Prop} [Decidable c] {s₁ : Sock} {x : Nat} (h : ∃ f, s₁ = { s with flagsHdlc := f }) :
      ∃ f, (if c then { s₁ with flagsHdlc := x } else s₁) = { s with flagsHdlc := f } := by
    obtain ⟨f, rfl⟩ := h
    split
    · exact ⟨x, rfl⟩
    · exact ⟨f, rfl⟩
  unfold negotiateHdlc
  split
  · extract_lets s₁ s₂ p₁ p₂
    obtain ⟨f, hf⟩ : ∃ f, s₂ = { s with flagsHdlc := f } := hflags (hflags ⟨s.flagsHdlc, rfl⟩)
    refine ⟨f, ?_⟩
    rw [← hf]
    split
    · rfl
    split
    · rfl
    split <;> rfl
  · exact ⟨s.flagsHdlc, rfl⟩
theorem negotiateHdlc_place (params : Params) : (s.negotiateHdlc params).2.1.place = s.place := by
  obtain ⟨flags, h⟩ := negotiateHdlc_eq s params
  rw [h]
  rfl

theorem negotiateValues_place (params : Params) : (s.negotiateValues params).place = s.place := by
  unfold negotiateValues
  dsimp only
  split_ifs <;> rfl

theorem paramsNegotiate_place (params : Params) : (s.paramsNegotiate params).2.1.place = s.place := by
  unfold paramsNegotiate
  cases negotiateClasses params with
  | some e => rfl
  | none =>
    have hhdlc := s.negotiateHdlc_place params
    revert hhdlc
    rcases s.negotiateHdlc params with ⟨_ | e, s', params'⟩
    · exact fun h => (negotiateValues_place params').trans h
    · exact fun h => h

theorem paramsUpgrade_place : s.paramsUpgrade.place = s.place := by
  unfold paramsUpgrade
  split <;> rfl

/-- The mode that `handle_sabm` gives a socket. -/
theorem acceptMode_place (t : FrameType) :
    (if t = FrameType.sabme then { s.paramsUpgrade with mode := SockMode.sabme }
      else { s with mode := SockMode.sabm }).place =
      { s.place with mode := if t = FrameType.sabme then .sabme else .sabm } := by
  split
  · have hup := s.paramsUpgrade_place
    obtain ⟨htype, hstate, -, hlocal, hremote, hfd⟩ := Place.mk.inj hup
    simp only [place, htype, hstate, hlocal, hremote, hfd]
  · rfl

/-- The mode that `handle_xid` gives a socket. -/
theorem xidMode_place {c : Prop} [Decidable c] (h : s'.place = s.place) :
    ∃ m, (if c then { s' with mode := SockMode.sabme } else s').place = { s.place with mode := m } := by
  split
  · rw [← h]
    exact ⟨.sabme, rfl⟩
  · exact ⟨s.mode, h⟩

end Sock

namespace M

variable {w : World} {s : Sock}

/-- `init_bufs` changes the buffers. -/
theorem initBufs_eq : wp (initBufs s) (fun r _ =>
    ∃ tx io slots, r.2 = { s with txBuf := tx, ioBuf := io, txSlots := slots }) (fun _ => True) w := by
  rw [initBufs, wp_bind]
  refine wp_intro fun ok₁ w₁ _ => ?_
  rw [wp_ite]
  refine ⟨fun _ => ?_, fun _ => ⟨_, _, _, rfl⟩⟩
  rw [wp_bind]
  refine wp_intro fun ok₂ w₂ _ => ?_
  rw [wp_ite]
  refine ⟨fun _ => ?_, fun _ => ⟨_, _, _, rfl⟩⟩
  rw [wp_bind]
  refine wp_intro fun ok₃ w₃ _ => ?_
  rw [wp_ite]
  refine ⟨fun _ => ?_, fun _ => ⟨_, _, _, rfl⟩⟩
  rw [wp_bind]
  refine wp_intro fun m w₄ _ => ?_
  rw [wp_bind, wp_lift]
  refine ⟨fun s' h => ?_, fun _ _ => trivial⟩
  obtain ⟨slots, rfl⟩ := Sock.clearSlots_eq h
  exact ⟨_, _, _, rfl⟩

theorem initBufs_place : wp (initBufs s) (fun r _ => r.2.place = s.place) (fun _ => True) w := by
  refine initBufs_eq.post fun r _ h => ?_
  obtain ⟨tx, io, slots, hr⟩ := h
  rw [hr]
  rfl

theorem sockBindIf_binds {i : Nat} : wp (sockBindIf s i)
    (fun s' _ => ∃ flags, s' = { s with iface := some i, flagsClasses := flags }) (fun _ => True) w := by
  rw [sockBindIf, wp_bind, wp_getIface]
  refine ⟨fun iface _ => ?_, fun _ => trivial⟩
  rw [wp_ite]
  refine ⟨fun _ => ?_, fun _ => ⟨_, rfl⟩⟩
  rw [wp_bind]
  exact wp_intro fun _ _ _ => ⟨_, rfl⟩

theorem sockBindIf_place {i : Nat} :
    wp (sockBindIf s i) (fun s' _ => s'.place = s.place) (fun _ => True) w := by
  refine sockBindIf_binds.post fun s' _ h => ?_
  obtain ⟨flags, rfl⟩ := h
  rfl

/-- The place of a new socket. -/
def newPlace (type : SockType) (fd : Nat) : Place :=
  ⟨type, if type = .raw then .established else .closed, .dm, .zero, .zero, fd⟩

/-- A new socket is in memory where nothing was, and the tables are as before. -/
def HasNew (type : SockType) (c : Core) : Option Ptr → Core → Prop
  | none, c' => c' = c
  | some p, c' => p = c.next ∧ ∃ s fd, s.place = newPlace type fd ∧
    s.nMaxlenTx ≤ PATTY_AX25_SOCK_DEFAULT_I_LEN ∧
    c' = { c with heap := Function.update c.heap c.next (some s), next := c.next + 1 }

theorem newSock_new {type : SockType} {c : Core} {fd : Nat} (hs : s.place = newPlace type fd)
    (hlen : s.nMaxlenTx ≤ PATTY_AX25_SOCK_DEFAULT_I_LEN) (hw : w.core = c) :
    wp (some <$> newSock s) (fun r w' => HasNew type c r w'.core) (fun _ => True) w := by
  subst hw
  rw [wp_map, wp_newSock]
  exact ⟨rfl, s, fd, hs, hlen, rfl⟩

theorem sockNew_new {proto : Nat} {type : SockType} :
    wp (sockNew proto type) (fun r w' => HasNew type w.core r w'.core) (fun _ => True) w := by
  rw [sockNew, wp_bind]
  refine quiet_alloc.core.wp (fun ok w₁ hw₁ => ?_) fun _ => trivial
  rw [wp_ite]
  refine ⟨fun _ => ?_, fun _ => hw₁⟩
  rw [wp_bind]
  refine tame_openpty.core.wp (fun a w₂ hw₂ => ?_) fun _ => trivial
  cases a with
  | none => exact hw₂.trans hw₁
  | some a =>
    have hcore : w₂.core = w.core := hw₂.trans hw₁
    have hinit {s₀ : Sock} (hs₀ : s₀.place = newPlace type a.1)
        (hlen : s₀.nMaxlenTx ≤ PATTY_AX25_SOCK_DEFAULT_I_LEN) : wp
        (initBufs s₀ >>= fun r => if r.1 then some <$> newSock r.2 else pure none : M (Option Ptr))
        (fun r w' => HasNew type w.core r w'.core) (fun _ => True) w₂ := by
      rw [wp_bind]
      refine (initBufs_eq.and (quiet_initBufs.core.wp (fun _ _ h => h) fun _ => trivial)).post ?_
      rintro ⟨ok, s⟩ w₃ ⟨⟨tx, io, slots, rfl⟩, hw₃⟩
      dsimp only
      rw [wp_ite]
      exact ⟨fun _ => newSock_new hs₀ hlen (hw₃.trans hcore), fun _ => hw₃.trans hcore⟩
    cases type with
    | dgram => exact newSock_new rfl (Nat.zero_le _) hcore
    | raw =>
      have hfail {w₃ : World} (h : w₃.core = w.core) : wp (do
          closeFd a.1
          pure none : M (Option Ptr)) (fun r w' => HasNew .raw w.core r w'.core)
          (fun _ => True) w₃ := by
        rw [wp_bind]
        exact tame_closeFd.core.wp (fun _ _ hw => hw.trans h) fun _ => trivial
      refine wp_bind.mpr (quiet_alloc.core.wp (fun ok₁ w₃ hw₃ => ?_) fun _ => trivial)
      rw [wp_ite]
      refine ⟨fun _ => ?_, fun _ => hfail (hw₃.trans hcore)⟩
      refine wp_bind.mpr (quiet_alloc.core.wp (fun ok₂ w₄ hw₄ => ?_) fun _ => trivial)
      rw [wp_ite]
      refine ⟨fun _ => ?_, fun _ => hfail (hw₄.trans (hw₃.trans hcore))⟩
      refine wp_bind.mpr (quiet_junk.core.wp (fun m w₅ hw₅ => ?_) fun _ => trivial)
      exact newSock_new rfl (Nat.zero_le _) (hw₅.trans (hw₄.trans (hw₃.trans hcore)))
    | stream => exact hinit rfl le_rfl
    | other n => exact hinit rfl (Nat.zero_le _)

/-- What holds of the socket that is made, if any. -/
def Makes (P : Sock → Prop) (r : Option Ptr) (w : World) : Prop := ∀ p ∈ r, ∀ s, w.heap p = some s → P s

/-- What holds of a new socket of each kind, whatever its descriptor and its buffers. -/
theorem sockNew_makes {P : Sock → Prop} {proto : Nat} {type : SockType}
    (hdgram : ∀ fd pty, P { Sock.zero with fd, pty, proto, type := .dgram })
    (hraw : ∀ fd pty m, P { Sock.zero with
      fd, pty, raw := some (Tnc.new m), proto := PATTY_AX25_PROTO_NONE.toNat, type := .raw, state := .established })
    (hinit : ∀ fd pty txBuf ioBuf txSlots, P {
      (if type = .stream then ({ Sock.zero with fd, pty } : Sock).init else { Sock.zero with fd, pty }) with
        proto, type, version := .v2_0, flagsClasses := PATTY_AX25_SOCK_DEFAULT_CLASSES
        flagsHdlc := PATTY_AX25_SOCK_DEFAULT_HDLC, txBuf, ioBuf, txSlots }) :
    wp (sockNew proto type) (Makes P) (fun _ => True) w := by
  have hnone {w : World} : Makes P none w := fun p hp => absurd hp (Option.not_mem_none p)
  have hsome {s : Sock} {w : World} (h : P s) : wp (some <$> newSock s) (Makes P) (fun _ => True) w := by
    rw [wp_map, wp_newSock]
    rintro p ⟨⟩ s' hs'
    rw [show s' = s from Option.some.inj (hs'.symm.trans (Function.update_self ..))]
    exact h
  rw [sockNew, wp_bind]
  refine wp_intro fun ok w₁ _ => ?_
  rw [wp_ite]
  refine ⟨fun _ => ?_, fun _ => hnone⟩
  rw [wp_bind]
  refine wp_intro fun a w₂ _ => ?_
  cases a with
  | none => exact hnone
  | some a =>
    have hfails {w : World} : wp (do
        closeFd a.1
        pure none : M (Option Ptr)) (Makes P) (fun _ => True) w :=
      wp_bind.mpr (wp_intro fun _ _ _ => hnone)
    have hbufs {s₀ : Sock} {w : World}
        (hs₀ : ∀ tx io slots, P { s₀ with txBuf := tx, ioBuf := io, txSlots := slots }) : wp
        (initBufs s₀ >>= fun r => if r.1 then some <$> newSock r.2 else pure none : M (Option Ptr))
        (Makes P) (fun _ => True) w := by
      rw [wp_bind]
      refine initBufs_eq.post ?_
      rintro ⟨ok, s⟩ w₃ ⟨tx, io, slots, rfl⟩
      dsimp only
      rw [wp_ite]
      exact ⟨fun _ => hsome (hs₀ tx io slots), fun _ => hnone⟩
    cases type with
    | dgram => exact hsome (hdgram a.1 a.2)
    | raw =>
      refine wp_bind.mpr (wp_intro fun ok₁ w₃ _ => ?_)
      rw [wp_ite]
      refine ⟨fun _ => wp_bind.mpr (wp_intro fun ok₂ w₄ _ => ?_), fun _ => hfails⟩
      rw [wp_ite]
      refine ⟨fun _ => wp_bind.mpr (wp_intro fun m w₅ _ => hsome (hraw a.1 a.2 m)), fun _ => hfails⟩
    | stream => exact hbufs (hinit a.1 a.2)
    | other => exact hbufs (hinit a.1 a.2)

end M

end Patty
