import Patty.Link.Frame
import Patty.Link.Turn

/-! # Runs of a connection

What happens to an established connection, step by step: its turns, the frames that are for it, the
parameters its client sets, and whatever else the server does, which leaves its socket alone. A run
lasts as long as the connection is established. -/

namespace Patty

open Prog

/-- What can happen to a connection. -/
inductive LinkInput
  | turn (t : Turn)
  /-- A decoded frame from an interface; the buffer is for the information field of XID. -/
  | frame (sys : Sys) (iface : Nat) (frame : Frame) (buf : Mem) (offset len : Nat)
  /-- `setsockopt` with these parameters. -/
  | params (sys : Sys) (client : Nat) (data : Mem)
  | other

/-- The connection is established. -/
def World.IsOpen (w : World) (p : Ptr) : Prop := ∃ s, w.heap p = some s ∧ s.state = .established

/-- A step of the connection of the socket `p`. The numbers of a frame are below the modulus, and a
`setsockopt` that fails ends the run of the server. -/
inductive LinkStep (p : Ptr) (w : World) : LinkInput → World → Prop
  | turn {t : Turn} {w' : World} :
    (M.handleSock p t.elapsed t.ready t.inp).after { w with sys := t.sys } = some w' →
    w'.IsOpen p → LinkStep p w (.turn t) w'
  | frame {sys : Sys} {i : Nat} {frame : Frame} {buf : Mem} {offset len : Nat} {w' : World} :
    (∀ s, w.heap p = some s → frame.nr < s.slots) →
    w.socksRemote.lookup (hashAddrpair frame.dest frame.src) = some p →
    (M.handleType i (some p) frame buf offset len).after { w with sys } = some w' →
    w'.IsOpen p → LinkStep p w (.frame sys i frame buf offset len) w'
  | params {sys : Sys} {client : Nat} {data : Mem} {r : Int} {w' : World} :
    M.paramsOption client p data { w with sys } = .ok (r, w') → 0 ≤ r → w'.IsOpen p →
    LinkStep p w (.params sys client data) w'
  | other {w' : World} : w'.heap p = w.heap p → LinkStep p w .other w'

variable {p : Ptr} {w w' : World} {s s' : Sock} {buf : Buf}

theorem WhileOpen.link {P : Link → Prop} (h : WhileOpen p P w) (ho : w.IsOpen p) :
    ∃ s, w.heap p = some s ∧ P s.link := by
  obtain ⟨s, hp, hstate⟩ := ho
  exact ⟨s, hp, h s hp hstate⟩

/-- The socket `p` is that of an established connection, with its slots in order. -/
structure Connected (p : Ptr) (w : World) (s : Sock) : Prop where
  heap : w.heap p = some s
  type : s.type = .stream
  state : s.state = .established
  mode : s.mode ≠ .dm
  slots : ∃ buf, s.HasSlots buf
  va : s.va < s.slots

/-- What no turn and no frame changes. -/
structure Sock.SameKind (s s' : Sock) : Prop where
  type : s'.type = s.type
  state : s'.state = s.state
  mode : s'.mode = s.mode
  proto : s'.proto = s.proto
  nMaxlenTx : s'.nMaxlenTx = s.nMaxlenTx
  nWindowTx : s'.nWindowTx = s.nWindowTx

theorem Sock.SameKind.of_link {slots : Option Buf} {va vs : Nat}
    (h : s'.link = { s.link with txSlots := slots, va, vs }) : s.SameKind s' where
  type := congrArg Link.type h
  state := congrArg Link.state h
  mode := congrArg Link.mode h
  proto := congrArg Link.proto h
  nMaxlenTx := congrArg Link.nMaxlenTx h
  nWindowTx := congrArg Link.nWindowTx h

theorem TurnEffect.same {t : Turn} {watched : Bool} (h : TurnEffect s watched t s'.link) :
    s.SameKind s' := by
  generalize hl : s'.link = l at h
  cases h with
  | idle => exact .of_link hl
  | resent => exact .of_link hl
  | read _ heff =>
    cases heff with
    | nothing => exact .of_link hl
    | saved => exact .of_link hl
    | sent => exact .of_link hl

/-- A turn does not acknowledge. -/
theorem TurnEffect.va {t : Turn} {watched : Bool} (h : TurnEffect s watched t s'.link) :
    s'.va = s.va := by
  generalize hl : s'.link = l at h
  cases h with
  | idle => exact congrArg Link.va hl
  | resent => exact congrArg Link.va hl
  | read _ heff =>
    cases heff with
    | nothing => exact congrArg Link.va hl
    | saved => exact congrArg Link.va hl
    | sent => exact congrArg Link.va hl

theorem FrameEffect.same {frame : Frame} (h : FrameEffect s frame s'.link) : s.SameKind s' := by
  generalize hl : s'.link = l at h
  cases h with
  | nothing => exact .of_link hl
  | acked _ hs₁ => exact .of_link (hl.trans hs₁.link)
  | reset _ hs₁ => exact .of_link (hl.trans hs₁.link)

/-! ## Parameters -/

/-- What `setsockopt` with the parameters `data` does to the transmitting side: new sizes come with new
slots, which are empty. -/
inductive ParamsEffect (s : Sock) (data : SetsockoptParams) : Link → Prop
  | same : data.reallocs = false → ParamsEffect s data s.link
  | renewed {s₁ : Sock} {buf : Buf} : data.reallocs → s₁.HasSlots buf → (∀ j, s₁.payload j = none) →
    s₁.link = { s.link with
      nMaxlenTx := s₁.nMaxlenTx, nWindowTx := s₁.nWindowTx, txSlots := some buf } →
    ParamsEffect s data s₁.link

theorem apply_link (data : SetsockoptParams) (s : Sock) : (data.apply s).link = { s.link with
    nMaxlenTx := (data.apply s).nMaxlenTx, nWindowTx := (data.apply s).nWindowTx } := by
  unfold SetsockoptParams.apply
  dsimp only
  split_ifs <;> rfl

/-- Without new buffers no size changes. -/
theorem apply_same {data : SetsockoptParams} (h : data.reallocs = false) (s : Sock) :
    (data.apply s).link = s.link := by
  simp only [SetsockoptParams.reallocs, bne_eq_false_iff_eq, Nat.and_or_distrib_left,
    Nat.or_eq_zero_iff] at h
  simp only [SetsockoptParams.apply, h.1, h.2, ne_eq, not_true_eq_false, if_false]
  split_ifs <;> rfl

theorem apply_nMaxlenTx (data : SetsockoptParams) (s : Sock) :
    (data.apply s).nMaxlenTx = data.mtu ∨ (data.apply s).nMaxlenTx = s.nMaxlenTx := by
  unfold SetsockoptParams.apply
  dsimp only
  split_ifs
  all_goals first | exact .inl rfl | exact .inr rfl

theorem ofMem_nMaxlenTx (m : Mem) (hn : s.nMaxlenTx < 2 ^ 64) :
    ((SetsockoptParams.ofMem m).apply s).nMaxlenTx < 2 ^ 64 := by
  have hmtu : (SetsockoptParams.ofMem m).mtu < 256 ^ 8 := by
    have h := leValue_lt (m.read 8 8)
    rwa [Mem.length_read] at h
  obtain h | h := apply_nMaxlenTx (.ofMem m) s
  · rw [h]; exact hmtu
  · rw [h]; exact hn

namespace M

/-- New buffers, when there is memory for them, have room for empty slots. -/
theorem initBufs_spec (hn : s.nMaxlenTx < 2 ^ 64) : wp (initBufs s)
    (fun r w' => w'.core = w.core ∧ (r.1 = true → ∃ buf, r.2.HasSlots buf ∧
      (∀ j, r.2.payload j = none) ∧ r.2.link = { s.link with txSlots := some buf }))
    (fun _ => True) w := by
  have hfail {s' : Sock} {w' : World} (h : w'.core = w.core) :
      wp (pure (false, s') : M (Bool × Sock)) (fun r w' => w'.core = w.core ∧ (r.1 = true →
        ∃ buf, r.2.HasSlots buf ∧ (∀ j, r.2.payload j = none) ∧
          r.2.link = { s.link with txSlots := some buf })) (fun _ => True) w' :=
    ⟨h, fun h => nomatch h⟩
  rw [initBufs, wp_bind]
  refine quiet_alloc.core.wp (fun _ w₁ h₁ => ?_) fun _ => trivial
  rw [wp_ite]
  refine ⟨fun _ => ?_, fun _ => hfail h₁⟩
  rw [wp_bind]
  refine quiet_alloc.core.wp (fun _ w₂ h₂ => ?_) fun _ => trivial
  rw [wp_ite]
  refine ⟨fun _ => ?_, fun _ => hfail (h₂.trans h₁)⟩
  rw [wp_bind]
  refine quiet_alloc.core.wp (fun _ w₃ h₃ => ?_) fun _ => trivial
  rw [wp_ite]
  refine ⟨fun _ => ?_, fun _ => hfail (h₃.trans (h₂.trans h₁))⟩
  rw [wp_bind]
  refine quiet_junk.core.wp (fun junk w₄ h₄ => ?_) fun _ => trivial
  rw [wp_bind, wp_lift]
  refine ⟨fun s' hs' => ⟨h₄.trans (h₃.trans (h₂.trans h₁)), fun _ => ?_⟩, fun _ _ => trivial⟩
  obtain ⟨buf, hbuf⟩ : ∃ buf, buf = reallocBuf s.txSlots s.txSlotsSize junk := ⟨_, rfl⟩
  rw [← hbuf] at hs'
  have hroom : Sock.HasRoom { s with
      txBuf := some s.txBufsz, ioBuf := some s.ioBufsz, txSlots := some buf } buf :=
    Sock.clearSlots_room hs' rfl (by rw [hbuf]; rfl) hn
  obtain ⟨buf', hclear, H', -, hempty⟩ := hroom.clear
  have heq := Except.ok.inj (hs'.symm.trans hclear)
  subst heq
  exact ⟨buf', H', hempty, rfl⟩

theorem paramsOption_spec {client : Nat} {m : Mem} (hp : w.heap p = some s)
    (hn : s.nMaxlenTx < 2 ^ 64) : wp (paramsOption client p m)
      (fun r w' => 0 ≤ r → ∃ s', w'.heap p = some s' ∧ ParamsEffect s (.ofMem m) s'.link)
      (fun _ => True) w := by
  have hrespond {s' : Sock} {w' : World} (hp' : w'.heap p = some s')
      (h : ParamsEffect s (.ofMem m) s'.link) : wp (respond client (.setsockopt 0 .zero))
        (fun r w' => 0 ≤ r → ∃ s', w'.heap p = some s' ∧ ParamsEffect s (.ofMem m) s'.link)
        (fun _ => True) w' :=
    wp_intro fun _ _ hr _ => ⟨s', (congrFun (quiet_respond.heap hr) p).trans hp', h⟩
  rw [paramsOption, wp_bind]
  refine wp_deref_some hp ?_
  have hlen := ofMem_nMaxlenTx m hn
  have hlink := apply_link (.ofMem m) s
  generalize hs₁ : (SetsockoptParams.ofMem m).apply s = s₁ at hlen hlink ⊢
  rw [wp_bind, wp_store, wp_ite]
  refine ⟨fun hre => ?_, fun hre => ?_⟩
  · rw [wp_bind]
    refine (initBufs_spec hlen).post ?_
    rintro ⟨ok, s₂⟩ w₂ ⟨-, hok⟩
    dsimp only at hok ⊢
    rw [wp_bind, wp_store, wp_ite]
    refine ⟨fun h => ?_, fun _ h => absurd h (by decide)⟩
    obtain ⟨buf, H, hempty, hl⟩ := hok h
    refine hrespond heap_setSock (.renewed hre H hempty ?_)
    have hn₂ : s₂.nMaxlenTx = s₁.nMaxlenTx := congrArg Link.nMaxlenTx hl
    have hw₂ : s₂.nWindowTx = s₁.nWindowTx := congrArg Link.nWindowTx hl
    rw [hl, hlink, hn₂, hw₂]
  · rw [Bool.not_eq_true] at hre
    have hsame := apply_same hre s
    rw [hs₁] at hsame
    exact hrespond heap_setSock (hsame ▸ .same hre)

end M

namespace LinkStep

theorem turn_effect {t : Turn} (C : Connected p w s) (h : LinkStep p w (.turn t) w') :
    ∃ s', w'.heap p = some s' ∧ TurnEffect s (w.fdsWatch s.fd) t s'.link := by
  obtain ⟨buf, H⟩ := C.slots
  cases h with
  | turn hrun hopen =>
    exact ((M.handleSock_spec (w := { w with sys := t.sys }) C.heap H C.mode C.type C.state rfl).after
      hrun).link hopen

theorem frame_effect {sys : Sys} {i : Nat} {frame : Frame} {m : Mem} {offset len : Nat}
    (C : Connected p w s) (h : LinkStep p w (.frame sys i frame m offset len) w') :
    ∃ s', w'.heap p = some s' ∧ FrameEffect s frame s'.link := by
  obtain ⟨buf, H⟩ := C.slots
  cases h with
  | frame hnr hlook hrun hopen =>
    exact ((M.handleType_spec (w := { w with sys }) C.heap H C.type C.state C.va (hnr s C.heap)
      hlook).after hrun).link hopen

theorem params_effect {sys : Sys} {client : Nat} {m : Mem} (C : Connected p w s)
    (h : LinkStep p w (.params sys client m) w') :
    ∃ s', w'.heap p = some s' ∧ ParamsEffect s (.ofMem m) s'.link := by
  obtain ⟨buf, H⟩ := C.slots
  have hn : s.nMaxlenTx < 2 ^ 64 := by
    have := H.small
    omega
  cases h with
  | params hrun hpos _ =>
    exact (M.paramsOption_spec (w := { w with sys }) C.heap hn).ok hrun hpos

end LinkStep

end Patty
