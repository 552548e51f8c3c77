import Patty.Negotiate
import Patty.Upkeep.Frames

/-! # Any frame keeps what can be kept

The negotiation of XID, and `handle_frame` as a whole (`keeps_handleFrame`). -/

namespace Patty

open Prog

/-- The addresses are those of the address field. -/
theorem decodeControl_addresses {frame f : Frame} {format : FrameFormat} {buf : Mem} {off len n : Nat}
    (h : decodeControl frame format buf off len = some (f, n)) : f.dest = frame.dest ∧ f.src = frame.src := by
  unfold decodeControl at h
  dsimp only at h
  split at h
  · cases h
  · rename_i f₁ hclassed
    have h₁ : f₁.dest = frame.dest ∧ f₁.src = frame.src := by
      split_ifs at hclassed
      · cases hclassed
        exact ⟨rfl, rfl⟩
      · split at hclassed <;> cases hclassed <;> exact ⟨rfl, rfl⟩
      · split at hclassed <;> cases hclassed <;> exact ⟨rfl, rfl⟩
    split at h <;> cases h <;> exact h₁

/-! ## Negotiation -/

namespace Sock

variable {s s' : Sock} {params params' : Params}

theorem negotiateHdlc_duty (s : Sock) (params : Params) : (s.negotiateHdlc params).2.1.duty = s.duty := by
  obtain ⟨flags, h⟩ := negotiateHdlc_eq s params
  rw [h]
  rfl

theorem negotiateValues_len (s : Sock) (params : Params) :
    (s.negotiateValues params).nMaxlenTx ≤ s.nMaxlenTx := by
  rw [(negotiateValues_fields s params).1]
  split
  · exact min_le_left ..
  · exact le_rfl

theorem paramsNegotiate_len (s : Sock) (params : Params) :
    (s.paramsNegotiate params).2.1.nMaxlenTx ≤ s.nMaxlenTx := by
  unfold paramsNegotiate
  cases negotiateClasses params with
  | some e => exact le_rfl
  | none =>
    have hhdlc : (s.negotiateHdlc params).2.1.nMaxlenTx = s.nMaxlenTx :=
      congrArg Duty.nMaxlenTx (s.negotiateHdlc_duty params)
    revert hhdlc
    rcases s.negotiateHdlc params with ⟨_ | e, s', params'⟩
    · exact fun h => (negotiateValues_len s' params').trans h.le
    · exact fun h => h.le

/-- A negotiation that fails has looked at the flags only. -/
theorem paramsNegotiate_error {e : Errno} (h : s.paramsNegotiate params = (some e, s', params')) :
    s'.duty = s.duty := by
  unfold paramsNegotiate at h
  split at h
  · cases h
    rfl
  · have hhdlc := s.negotiateHdlc_duty params
    revert h hhdlc
    rcases s.negotiateHdlc params with ⟨_ | e, s₁, params₁⟩
    · intro h
      cases h
    · intro h hhdlc
      cases h
      exact hhdlc

theorem Small.of_le (h : s.Small) (hlen : s'.nMaxlenTx ≤ s.nMaxlenTx) : s'.Small :=
  Nat.lt_of_le_of_lt (Nat.add_le_add_left hlen 16) h

end Sock

/-- An XID that makes a socket for a listening one, at `n`, leaves `Z` where `K` held. -/
def Listens (K Z : World → Prop) (n : Ptr) : Prop := ∀ i frame s params w, K w → w.next = n →
  wp (M.xidListen i frame s params) (fun _ w' => Z w') (fun _ => True) w

namespace M

variable {α : Type} {K K' : World → Prop} {Good Good' : Ptr → Sock → Prop} {Mine : Ptr → Prop}
  {Fails : World → Prop}
  (U : Upkeep K Good Mine) {p : Ptr} {s : Sock} {frame : Frame} {i : Nat} {sock : Option Ptr} {w : World}
include U

/-! ## XID -/

theorem keeping_xidResponse {params : Params} (hp : Mine p) (hs : Good p s) :
    Keeping K (xidResponse p s params) := by
  have hplace := s.paramsNegotiate_place params
  have hlen := s.paramsNegotiate_len params
  unfold xidResponse
  rcases hneg : s.paramsNegotiate params with ⟨_ | e, s₁, params'⟩
  · rw [hneg] at hplace hlen
    obtain ⟨s₂, hs₂⟩ : ∃ s₂, s₂ = if params'.hdlc &&& PATTY_AX25_PARAM_HDLC_MODULO_128 ≠ 0 then
        { s₁ with mode := .sabme } else s₁ := ⟨_, rfl⟩
    obtain ⟨mode, hmode⟩ := Sock.xidMode_place
      (c := params'.hdlc &&& PATTY_AX25_PARAM_HDLC_MODULO_128 ≠ 0) hplace
    have hlen₂ : s₂.nMaxlenTx = s₁.nMaxlenTx := by
      rw [hs₂]
      split <;> rfl
    rw [← hs₂] at hmode
    dsimp only
    rw [← hs₂]
    refine (U.quiet quiet_sendSabm).bind fun _ => (keeping_move U hp hs ?_).bind fun _ => .pure
    refine .runs (congrArg Place.type hmode) (congrArg Place.fd hmode)
      (fun h => h.of_le (hlen₂.trans_le hlen)) (fun h => ?_) rfl
    rw [← h]
    exact (congrArg Place.state hmode).symm
  · have hduty := Sock.paramsNegotiate_error hneg
    have hs₁ : Good p s₁ := U.moves hs (.stay hduty)
    refine (U.quiet quiet_setErrno).bind fun _ => (U.store hp hs₁).bind fun _ =>
      Keeps.gets.bind fun c => ?_
    cases c with
    | none => exact .pure
    | some c =>
      have hs₂ : Good p s₁.init := by
        refine U.moves hs₁ (.settles rfl rfl (fun _ => ?_) rfl fun _ h => nomatch h)
        exact Nat.lt_of_le_of_lt (Nat.le_refl (16 + PATTY_AX25_SOCK_DEFAULT_I_LEN)) (by decide)
      exact (U.store hp hs₂).bind fun _ => .lift_bind (fun _ _ => trivial) fun s₃ hs₃ =>
        (keeping_move U hp hs₂ (Sock.reset_moves hs₃)).bind fun _ =>
          .get_bind fun _ _ => U.quiet quiet_respond

omit U in
/-- `handle_xid` for a listening socket: the new socket waits to be accepted with T1 running. From where it is
made, another invariant is kept. -/
theorem keeps_xidListen {params : Params} {K₁ : World → Prop} {Good₁ : Ptr → Sock → Prop} (U : Upkeep K Good Mine)
    (U₁ : Upkeep K₁ Good₁ Mine) (F : ∀ p, Mine p → CanLoose K₁ Good₁ Mine Fails p)
    (hmade : ∀ w', K w' → w'.next = w.next + 1 → K₁ w') (hborn : BornGood Good₁ w.next) (hw : K w) :
    wp (xidListen i frame s params) (fun _ w' => K w' ∨ K₁ w') (fun _ => True) w := by
  rw [xidListen, wp_bind, wp_clientBySock]
  split
  · exact .inl hw
  · rw [wp_bind]
    refine ((U.sockNew hw).and sockNew_new).post ?_
    rintro (_ | r) w₁ ⟨⟨hw₁, hr⟩, hnew⟩
    · exact .inl hw₁
    have hp := hr r rfl
    obtain ⟨rfl, _, _, _, _, hcore⟩ := hnew
    have hw₁ := hmade w₁ hw₁ (congrArg Core.next hcore)
    obtain ⟨K', Good', V, L⟩ := F w.next hp
    dsimp only
    rw [wp_bind, wp_deref]
    refine ⟨fun s₀ hheap => ?_, fun _ => trivial⟩
    have hs₀ := U₁.good hw₁ hheap
    have hloose := V.good (L.loosen hw₁) hheap
    have hdestroy {w' : World} (hw' : K' w') : wp (do
        sockDestroy w.next
        pure (-1) : M Int) (fun _ w' => K w' ∨ K₁ w') (fun _ => True) w' :=
      wp_bind.mpr ((L.destroy hw').post fun _ _ h => .inr h)
    obtain ⟨s₁, hs₁⟩ : ∃ s₁, s₁ = if params.hdlc &&& PATTY_AX25_PARAM_HDLC_MODULO_128 ≠ 0 then
        { { s₀ with state := .pendingAccept } with mode := .sabme }
        else { s₀ with state := .pendingAccept } := ⟨_, rfl⟩
    obtain ⟨mode, hmode⟩ := Sock.xidMode_place (s := { s₀ with state := .pendingAccept })
      (c := params.hdlc &&& PATTY_AX25_PARAM_HDLC_MODULO_128 ≠ 0) rfl
    rw [← hs₁] at hmode
    rw [← hs₁, wp_bind]
    refine ((V.quiet quiet_sockBindIf w₁ (L.loosen hw₁)).and sockBindIf_duty).post ?_
    rintro s₂ w₂ ⟨hw₂, hduty⟩
    have hplace := s₂.paramsMax.paramsNegotiate_place params
    have hlen := s₂.paramsMax.paramsNegotiate_len params
    have htype₂ : s₂.paramsMax.type = s₀.type :=
      (congrArg Duty.type hduty).trans (congrArg Place.type hmode)
    have hfd₂ : s₂.paramsMax.fd = s₀.fd := (congrArg Duty.fd hduty).trans (congrArg Place.fd hmode)
    rcases hneg : s₂.paramsMax.paramsNegotiate params with ⟨_ | e, s₃, params'⟩
    · rw [hneg] at hplace hlen
      obtain ⟨s₄, hs₄⟩ : ∃ s₄, s₄ = s₃.saveReplyAddr frame := ⟨_, rfl⟩
      have htype₄ : s₄.type = s₀.type := by
        rw [hs₄]
        exact (congrArg Place.type hplace).trans htype₂
      have hfd₄ : s₄.fd = s₀.fd := by
        rw [hs₄]
        exact (congrArg Place.fd hplace).trans hfd₂
      have hsmall : s₄.Small := by
        rw [hs₄]
        refine Nat.lt_of_le_of_lt (Nat.add_le_add_left hlen 16) ?_
        exact (by decide : 16 + PATTY_AX25_SOCK_2_2_MAX_I_LEN < 2 ^ 64)
      dsimp only
      rw [← hs₄, wp_bind, wp_store, wp_bind]
      refine (V.sockSave hp _ (V.store hp (L.any hloose hfd₄) _ hw₂)).post fun ok w₃ hw₃ => ?_
      rw [wp_ite]
      refine ⟨fun _ => ?_, fun _ => hdestroy hw₃⟩
      rw [wp_bind]
      refine (V.quiet quiet_sendXid w₃ hw₃).post fun ret w₄ hw₄ => ?_
      exact .inr (L.settle hw₄ (hborn s₀ _ hs₀ htype₄ hfd₄ (fun _ => hsmall) rfl))
    · rw [hneg] at hplace
      have hfd₃ : s₃.fd = s₀.fd := (congrArg Place.fd hplace).trans hfd₂
      rw [wp_bind, wp_setErrno, wp_bind, wp_store]
      exact hdestroy (V.store hp (L.any hloose hfd₃) _ (V.quiet quiet_setErrno w₂ hw₂))

omit U in
theorem listens_of_born {n : Ptr} (U : Upkeep K Good Mine) (F : ∀ p, Mine p → CanLoose K Good Mine Fails p)
    (hborn : BornGood Good n) : Listens K K n := by
  rintro i frame s params w hw rfl
  exact (keeps_xidListen U U F (fun _ h _ => h) hborn hw).post fun _ _ h => h.elim id id

/-- `handle_xid` where the sockets for the pair of addresses are `Mine`. -/
theorem keeps_handleXid {Z : World → Prop} {buf : Mem} {offset len : Nat} (hz : ∀ w, K w → Z w)
    (hlisten : Listens K Z w.next)
    (hmine : ∀ p ∈ w.socksRemote.lookup (hashAddrpair frame.dest frame.src), Mine p) (hw : K w) :
    wp (handleXid i frame buf offset len) (fun _ w' => Z w') (fun _ => True) w := by
  have hkeep {m : M Int} {w : World} (hm : Keeping K m) (hw : K w) : wp m (fun _ w' => Z w') (fun _ => True) w :=
    (hm w hw).post fun _ w' h => hz w' h
  rw [handleXid, wp_bind]
  refine wp_intro fun iface w₁ h₁ => ?_
  have hw₁ := (U.quiet quiet_getIface w hw).ok h₁
  have hcore₁ := quiet_getIface.core _ _ _ h₁
  rw [wp_ite]
  refine ⟨fun _ => hz w₁ hw₁, fun _ => ?_⟩
  rw [wp_bind]
  refine wp_intro fun m w₂ h₂ => ?_
  have hw₂ := (U.quiet quiet_junk w₁ hw₁).ok h₂
  have hcore₂ := (quiet_junk.core _ _ _ h₂).trans hcore₁
  cases decodeXid (.ofMem m) buf offset len with
  | none => exact hkeep ((U.quiet quiet_setErrno).bind fun _ => .pure) hw₂
  | some params =>
    dsimp only
    rw [wp_bind]
    refine (U.quiet quiet_setErrno w₂ hw₂).and (quiet_setErrno.core.wp (fun _ _ h => h) fun _ => trivial)
      |>.post ?_
    rintro - w₃ ⟨hw₃, hcore₃⟩
    have hcore := hcore₃.trans hcore₂
    have hremote : w₃.socksRemote = w.socksRemote := congrArg Core.socksRemote hcore
    have hnext : w₃.next = w.next := congrArg Core.next hcore
    rw [wp_bind, wp_sockByAddrpair, hremote]
    cases hlook : w.socksRemote.lookup (hashAddrpair frame.dest frame.src) with
    | some p =>
      refine hkeep (keeping_deref U fun s hs => .ite (fun _ => U.quiet quiet_replyDm) fun _ => ?_) hw₃
      exact keeping_xidResponse U (hmine p hlook) hs
    | none =>
      dsimp only
      rw [wp_bind, wp_sockByAddr]
      cases w₃.socksLocal.lookup (hashAddr frame.dest) with
      | none => exact hkeep (U.quiet quiet_replyDm) hw₃
      | some l =>
        dsimp only
        rw [wp_bind, wp_deref]
        refine ⟨fun s _ => ?_, fun _ => trivial⟩
        rw [wp_ite]
        exact ⟨fun _ => hkeep (U.quiet quiet_replyDm) hw₃, fun _ => hlisten i frame s params w₃ hw₃ hnext⟩

variable (F : ∀ p, Mine p → CanLoose K Good Mine Fails p)
include F

/-! ## Any frame -/

/-- The handler of a frame for the socket `sock` of its pair of addresses: it leaves `Z`, or fails without an
error number. -/
theorem keeps_handleType {Z : World → Prop} {buf : Mem} {offset len : Nat} (hz : ∀ w, K w → Z w)
    (hlisten : Listens K Z w.next)
    (hlook : w.socksRemote.lookup (hashAddrpair frame.dest frame.src) = sock) (hmine : ∀ p ∈ sock, Mine p)
    (hack : frame.type.acknowledges → AcksWell Good sock frame w)
    (hnotify : frame.type = .sabm ∨ frame.type = .sabme →
      ∀ a b peer path, Keeping K (notifyAccept a b peer path)) (hw : K w) :
    wp (handleType i sock frame buf offset len) (fun r w' => Z w' ∨ Fails w' ∧ r < 0 ∧ w'.errno = w.errno)
      (fun _ => True) w := by
  have hkeep {m : M Int} (h : wp m (fun _ w' => K w') (fun _ => True) w) :
      wp m (fun r w' => Z w' ∨ Fails w' ∧ r < 0 ∧ w'.errno = w.errno) (fun _ => True) w :=
    h.post fun _ w' h => .inl (hz w' h)
  have hs {t : FrameType} (h : frame.type = t) (ht : t ≠ .i) : frame.type ≠ .i := h ▸ ht
  have ha {t : FrameType} (h : frame.type = t) (ht : t.acknowledges) : AcksWell Good _ frame w := hack (h ▸ ht)
  subst hlook
  unfold handleType
  split
  · exact hkeep (keeps_handleI U hmine (ha ‹_› rfl) hw)
  · exact hkeep (keeping_handleUi U hmine w hw)
  · exact hkeep (keeps_handleS U (fun _ _ => keeping_sockFlowStart U) hmine (hs ‹_› (by decide)) (ha ‹_› rfl) hw)
  · exact hkeep (keeps_handleS U (fun _ => keeping_sockFlowStop U) hmine (hs ‹_› (by decide)) (ha ‹_› rfl) hw)
  · exact hkeep (keeps_handleS U (fun _ _ => keeping_sockFlowStart U) hmine (hs ‹_› (by decide)) (ha ‹_› rfl) hw)
  · exact hkeep (keeps_handleSrej U hmine (hs ‹_› (by decide)) (ha ‹_› rfl) hw)
  · exact (keeps_handleXid U hz hlisten hmine hw).post fun _ _ h => .inl h
  · exact hkeep (keeps_handleSabm U F hmine (hnotify (.inl ‹_›)) hw)
  · exact hkeep (keeps_handleSabm U F hmine (hnotify (.inr ‹_›)) hw)
  · exact hkeep (keeping_handleTest U w hw)
  · exact hkeep (keeping_handleUa U hmine w hw)
  · exact (keeps_handleDm U F hmine hw).post fun _ w' h => h.imp_left (hz w')
  · exact hkeep (keeping_handleDisc U hmine w hw)
  · exact hkeep (keeping_handleFrmr U hmine w hw)
  · exact .inl (hz w hw)

end M

/-- The socket of the pair of addresses of the frame in the `len` octets at `buf`. -/
def World.frameSock (w : World) (buf : Mem) (len : Nat) : Option Ptr :=
  (decodeAddress .blank buf len).bind fun x => w.socksRemote.lookup (hashAddrpair x.1.dest x.1.src)

/-- The format in which a frame for the socket is decoded. -/
def World.formatFor (w : World) (sock : Option Ptr) : FrameFormat :=
  match sock.bind w.heap with
  | some s => if s.mode = .sabme then .extended else .normal
  | none => .normal

/-- The frame in the `len` octets at `buf`, as the server decodes it. -/
def World.frameOf (w : World) (buf : Mem) (len : Nat) : Option Frame :=
  (decodeAddress .blank buf len).bind fun x =>
    (decodeControl x.1 (w.formatFor (w.frameSock buf len)) buf x.2 len).map Prod.fst

namespace M

/-- The format that `formatOf` finds. -/
theorem formatOf_spec {w : World} {sock : Option Ptr} :
    wp (formatOf sock) (fun format w' => format = w.formatFor sock ∧ w' = w) (fun _ => True) w := by
  cases sock with
  | none => exact ⟨rfl, rfl⟩
  | some p =>
    rw [formatOf, wp_bind, wp_deref]
    refine ⟨fun s hs => ?_, fun _ => trivial⟩
    rw [wp_pure, World.formatFor, Option.bind_some, hs]
    exact ⟨rfl, rfl⟩

/-- `handle_frame`, where the handler of the type is left open. -/
theorem wp_handleFrame {Q : Int → World → Prop} {w : World} {i : Nat} {buf : Mem} {len : Nat}
    (hdrop : wp (ifDrop i) (fun _ w' => Q 0 w') (fun _ => True) w)
    (htype : ∀ f ∈ w.frameOf buf len, ∀ offset,
      w.socksRemote.lookup (hashAddrpair f.dest f.src) = w.frameSock buf len →
      wp (handleType i (w.frameSock buf len) f buf offset len) Q (fun _ => True) { w with errno := .zero }) :
    wp (handleFrame i buf len) Q (fun _ => True) w := by
  unfold handleFrame
  cases haddr : decodeAddress .blank buf len with
  | none => exact wp_bind.mpr hdrop
  | some x =>
    obtain ⟨frame, offset⟩ := x
    have hsock : w.frameSock buf len = w.socksRemote.lookup (hashAddrpair frame.dest frame.src) := by
      rw [World.frameSock, haddr]
      rfl
    dsimp only
    rw [wp_bind, wp_sockByAddrpair, ← hsock, wp_bind]
    refine formatOf_spec.post ?_
    rintro format w₁ ⟨rfl, rfl⟩
    cases hcontrol : decodeControl frame (w₁.formatFor (w₁.frameSock buf len)) buf offset len with
    | none => exact wp_bind.mpr hdrop
    | some y =>
      obtain ⟨f, offset'⟩ := y
      have hf : f ∈ w₁.frameOf buf len := by
        rw [World.frameOf, haddr]
        simp [hcontrol]
      obtain ⟨hdest, hsrc⟩ := decodeControl_addresses hcontrol
      dsimp only
      rw [wp_bind, wp_setErrno]
      exact htype f hf offset' (by rw [hsock, hdest, hsrc])

/-- `handle_frame` leaves `Z`, or fails with an error number other than `EIO`. -/
theorem keeps_handleFrame {K Z : World → Prop} {Good : Ptr → Sock → Prop} {Mine : Ptr → Prop}
    {Fails : World → Prop} {w : World} {i : Nat} {buf : Mem} {len : Nat} (U : Upkeep K Good Mine)
    (F : ∀ p, Mine p → CanLoose K Good Mine Fails p) (hz : ∀ w, K w → Z w) (hlisten : Listens K Z w.next)
    (hmine : ∀ p ∈ w.frameSock buf len, Mine p)
    (hack : ∀ f ∈ w.frameOf buf len, f.type.acknowledges → AcksWell Good (w.frameSock buf len) f w)
    (hnotify : ∀ f ∈ w.frameOf buf len, f.type = .sabm ∨ f.type = .sabme →
      ∀ a b peer path, Keeping K (notifyAccept a b peer path)) (hw : K w) :
    wp (handleFrame i buf len) (fun r w' => Z w' ∨ Fails w' ∧ r < 0 ∧ w'.errno ≠ .eio) (fun _ => True) w := by
  refine wp_handleFrame ((U.quiet quiet_ifDrop w hw).post fun _ w' h => .inl (hz w' h)) fun f hf _ hlook => ?_
  have hw₁ : K { w with errno := .zero } := U.quiet quiet_setErrno w hw
  refine (keeps_handleType (w := { w with errno := .zero }) U F hz hlisten hlook hmine (hack f hf)
    (hnotify f hf) hw₁).post ?_
  rintro r w' (h | ⟨hfails, hr, herrno⟩)
  · exact .inl h
  · exact .inr ⟨hfails, hr, fun h => nomatch herrno.symm.trans h⟩

end M

end Patty
