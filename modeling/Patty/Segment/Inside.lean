import Patty.Segment.Effect

/-! # Where segments are stored

The reassembler of a message of `total` segments has `total * n_maxlen_rx` bytes, and each segment adds
at most `n_maxlen_rx - 1` to what it holds, so what `patty_ax25_sock_assembler_save` stores lies in these
bytes (`Roomy`). The subtraction wraps where `n_maxlen_rx` is 0, as `patty_ax25_sock_new` leaves it for a
DGRAM socket: there the first segment of any message is stored behind its reassembler, and nothing else
ever is (`inside_iff`). -/

namespace Patty

open Prog

/-! ## The calls -/

/-- A frame with a segment, of a type that may carry one, and the server that is to handle it. -/
structure Fragment where
  iface : Nat
  frame : Frame
  world : World
  type : frame.type = .i ∨ frame.type = .ui
  proto : frame.proto = PATTY_AX25_PROTO_FRAGMENT
  infolen_lt : frame.infolen < 2 ^ 64

/-- The handler of the frame, for the socket `p`. -/
def Fragment.handled (x : Fragment) (p : Ptr) : M Int :=
  if x.frame.type = .i then M.handleI x.iface (some p) x.frame else M.handleUi (some p) x.frame

/-- The socket `p` has the same reassembler and `n_maxlen_rx`. -/
def Between (p : Ptr) (w w' : World) : Prop :=
  ∃ s s', w.heap p = some s ∧ w'.heap p = some s' ∧ s'.assembler = s.assembler ∧
    s'.nMaxlenRx = s.nMaxlenRx

/-- `handle_i` or `handle_ui` takes the frame for the socket `p`. Since the one before it, the server has
left the reassembler and `n_maxlen_rx` alone. -/
def FragStep (p : Ptr) (w : World) (x : Fragment) (w' : World) : Prop :=
  Between p w x.world ∧ (x.handled p).after x.world = some w'

/-- The server when the handler calls `handle_segment`. -/
inductive HandsOver (p : Ptr) (x : Fragment) : World → Prop
  | expected {s s' : Sock} : x.frame.type = .i → x.world.heap p = some s → s.state = .established →
    s.frameAck x.frame = .ok s' → x.frame.ns = s'.vr →
    HandsOver p x ((x.world.setSock p s').setSock p s'.vrIncr)
  | behind {s s' : Sock} : x.frame.type = .i → x.world.heap p = some s → s.state = .established →
    s.frameAck x.frame = .ok s' → x.frame.ns < s'.vr → HandsOver p x (x.world.setSock p s')
  | ui {s : Sock} : x.frame.type = .ui → x.world.heap p = some s → s.type = .dgram →
    HandsOver p x x.world

/-- The socket for which `handle_segment`, called for `s`, calls `patty_ax25_sock_assembler_save`. -/
inductive SaveCall (s : Sock) (f : Frame) (w : World) : Sock → Prop
  | first {s' : Sock} {w' : World} : ¬f.segRefused s.nMaxlenRx → f.segFirst = true →
    M.assemblerInit s (f.segCount + 1) w = .ok ((true, s'), w') → s'.assemblerPending f.segCount →
    SaveCall s f w s'
  | later : ¬f.segRefused s.nMaxlenRx → f.segFirst = false → s.assemblerPending f.segCount →
    SaveCall s f w s

/-- What `patty_ax25_sock_assembler_save` stores of the frame lies in what is allocated for the
message. -/
def Inside (p : Ptr) (x : Fragment) : Prop :=
  ∀ w s s' a, HandsOver p x w → w.heap p = some s → SaveCall s x.frame w s' → s'.assembler = some a →
    x.frame.segData.length ≤ sizeSub s'.nMaxlenRx 1 →
    a.data.size = a.total * s'.nMaxlenRx ∧ a.offset + x.frame.segData.length ≤ a.total * s'.nMaxlenRx

/-- `malloc` does not fail the next time. -/
def World.HasMemory (w : World) : Prop := w.sys.alloc.head? ≠ some false

/-- The first segment of a message, for a socket whose `n_maxlen_rx` is 0. -/
def Overruns (p : Ptr) (x : Fragment) : Prop :=
  ∃ w s, HandsOver p x w ∧ w.heap p = some s ∧ s.nMaxlenRx = 0 ∧ w.HasMemory ∧
    x.frame.segFirst = true ∧ ¬x.frame.segRefused 0

/-! ## The calls are those of the handlers -/

namespace M

variable {w : World} {p : Ptr} {s s' : Sock} {frame : Frame} {e : Fault}

theorem segmentSave_error (hpend : s.assemblerPending frame.segCount)
    (he : s.assemblerSave frame.segData = .error e) :
    segmentSave p s frame frame.segCount w = .error e := by
  rw [Frame.segData] at he
  rw [segmentSave, if_neg (by simp [hpend]), he]
  exact bind_error (lift_error e w)

/-- `handle_segment` in terms of what the header says. -/
theorem handleSegment_eq : handleSegment p frame = (do
    let s ← deref p
    if frame.infolen < 2 then sendSrej s .response
    else if frame.segFirst then
      if frame.segCount = 0 then sendSrej s .response
      else
        let (ok, s) ← assemblerInit s (frame.segCount + 1)
        store p s
        if ok then segmentSave p s frame frame.segCount else pure (-1)
    else if 0 < frame.segCount ∧ frame.infolen ≠ s.nMaxlenRx then sendSrej s .response
    else if frame.segCount = 0 ∧ s.nMaxlenRx < frame.infolen then sendSrej s .response
    else segmentSave p s frame frame.segCount) := rfl

/-- A fault of the call is one of `handle_segment`. -/
theorem handleSegment_error (hp : w.heap p = some s) (h : SaveCall s frame w s')
    (he : s'.assemblerSave frame.segData = .error e) : handleSegment p frame w = .error e := by
  have hlong (href : ¬frame.segRefused s.nMaxlenRx) : ¬frame.infolen < 2 := fun h => href (.inl h)
  rw [handleSegment_eq, bind_ok (deref_ok hp)]
  cases h with
  | @first _ w' href hfirst hinit hpend =>
    have hcount : frame.segCount ≠ 0 := fun h => href (.inr (.inl ⟨hfirst, h⟩))
    rw [if_neg (hlong href), if_pos hfirst, if_neg hcount]
    exact (bind_ok hinit).trans (segmentSave_error hpend he)
  | later href hfirst hpend =>
    rw [if_neg (hlong href), if_neg (by simp [hfirst]),
      if_neg fun h => href (.inr (.inr ⟨hfirst, .inl h⟩)),
      if_neg fun h => href (.inr (.inr ⟨hfirst, .inr h⟩))]
    exact segmentSave_error hpend he

end M

/-- A fault of `handle_segment` is one of the handler. -/
theorem HandsOver.error {p : Ptr} {x : Fragment} {w : World} {e : Fault} (h : HandsOver p x w)
    (he : M.handleSegment p x.frame w = .error e) : x.handled p x.world = .error e := by
  have hdeliver : M.iDeliver p x.frame w = .error e := by
    rw [M.iDeliver, if_pos x.proto, bind_error he]
  cases h with
  | @expected s s' htype hp hstate hack hns =>
    rw [Fragment.handled, if_pos htype, M.handleI, bind_ok (M.deref_ok hp), if_neg (by simp [hstate]),
      hack]
    change M.iReceive p x.frame (x.world.setSock p s') = _
    rw [M.iReceive, bind_ok (M.deref_ok M.heap_setSock), if_pos hns]
    exact hdeliver
  | @behind s s' htype hp hstate hack hns =>
    rw [Fragment.handled, if_pos htype, M.handleI, bind_ok (M.deref_ok hp), if_neg (by simp [hstate]),
      hack]
    change M.iReceive p x.frame (x.world.setSock p s') = _
    rw [M.iReceive, bind_ok (M.deref_ok M.heap_setSock), if_neg (by omega), if_neg (by omega),
      if_neg (by omega)]
    exact hdeliver
  | @ui s htype hp hdgram =>
    rw [Fragment.handled, if_neg (by simp [htype]), M.handleUi, bind_ok (M.deref_ok hp),
      if_neg (by simp [hdgram]), if_pos x.proto]
    exact he

/-- Where a segment does not fit in what is allocated, the handler overruns it. -/
theorem overrun_of_outside {p : Ptr} {x : Fragment} {w : World} {s s' : Sock} {a : Assembler}
    (h : HandsOver p x w) (hp : w.heap p = some s) (hcall : SaveCall s x.frame w s')
    (ha : s'.assembler = some a) (hlen : x.frame.segData.length ≤ sizeSub s'.nMaxlenRx 1)
    (hout : a.data.size < a.offset + x.frame.segData.length) :
    x.handled p x.world = .error .overrun := by
  have hpend : s'.assemblerPending x.frame.segCount := by
    cases hcall with
    | first _ _ _ h => exact h
    | later _ _ h => exact h
  have hrem : a.remaining ≠ 0 := by
    rw [Sock.assemblerPending, ha] at hpend
    simp only [Bool.and_eq_true, beq_iff_eq] at hpend
    omega
  refine h.error (M.handleSegment_error hp hcall ?_)
  rw [Sock.assemblerSave, if_neg (Nat.not_lt.mpr hlen), ha]
  dsimp only
  rw [if_neg hrem, if_pos hout]

/-! ## The invariant -/

/-- The reassembler has room for the segments that are to come. -/
structure Assembler.Roomy (n : Nat) (a : Assembler) : Prop where
  pos : 0 < n
  size : a.data.size = a.total * n
  remaining_le : a.remaining ≤ a.total
  offset_le : a.offset ≤ (a.total - a.remaining) * (n - 1)

/-- A reassembler with a message under way has room for the rest. -/
def Sock.Roomy (s : Sock) : Prop :=
  ∀ a, s.assembler = some a → a.total ≠ 0 → a.Roomy s.nMaxlenRx

theorem Frame.length_segData_le (f : Frame) : f.segData.length ≤ f.infolen - 1 := by
  rw [Frame.segData, List.length_drop, Frame.infoBytes]
  cases f.info with
  | none => simp
  | some m => rw [Mem.length_read]

/-- A first segment has data. -/
theorem Frame.length_segData {f : Frame} (h : f.segFirst = true) :
    f.segData.length = f.infolen - 1 := by
  rw [Frame.segData, List.length_drop, Frame.infoBytes]
  cases hinfo : f.info with
  | none => simp [Frame.segFirst, Frame.infoAt, hinfo] at h
  | some m => rw [Mem.length_read]

theorem sizeSub_one {n : Nat} (h : 0 < n) (hn : n < 2 ^ 64) : sizeSub n 1 = n - 1 := by
  rw [sizeSub]
  omega

namespace Assembler

variable {n : Nat} {a : Assembler} {count : Nat} {bs : Bytes}

theorem opened_roomy {m : Mem} (h : 0 < n) : (opened count n m).Roomy n :=
  ⟨h, rfl, le_rfl, by simp [opened]⟩

/-- A segment that is awaited fits. -/
theorem Roomy.fits (h : a.Roomy n) (haw : a.Awaits count) (hlen : bs.length ≤ n - 1) :
    a.offset + bs.length ≤ (a.total - (a.remaining - 1)) * (n - 1) := by
  have hrem : a.total - (a.remaining - 1) = a.total - a.remaining + 1 := by
    have := h.remaining_le
    have := haw.2
    omega
  rw [hrem, Nat.add_mul, Nat.one_mul]
  exact Nat.add_le_add h.offset_le hlen

theorem Roomy.save (h : a.Roomy n) (haw : a.Awaits count) (hlen : bs.length ≤ n - 1) :
    (a.save bs).Roomy n :=
  ⟨h.pos, h.size, (Nat.sub_le _ _).trans h.remaining_le, h.fits haw hlen⟩

theorem Roomy.inside (h : a.Roomy n) (haw : a.Awaits count) (hlen : bs.length ≤ n - 1) :
    a.offset + bs.length ≤ a.total * n :=
  (h.fits haw hlen).trans (Nat.mul_le_mul (Nat.sub_le _ _) (Nat.sub_le _ _))

end Assembler

section

variable {s : Sock} {f : Frame} {refuses : Bool} {asm : Option Assembler} {msg : Option Bytes}

/-- The reassembler once it is opened for a segment has room, unless `n_maxlen_rx` is 0. -/
theorem Opens.roomy {a : Assembler} (hs : s.Roomy) (h : Opens s f (some a)) (htotal : a.total ≠ 0)
    (hpos : 0 < s.nMaxlenRx) : a.Roomy s.nMaxlenRx := by
  generalize hsome : some a = asm at h
  cases h with
  | next => exact hs a hsome.symm htotal
  | kept _ ha => exact hs a (ha.trans hsome.symm) htotal
  | new m =>
    obtain rfl := Option.some.inj hsome
    exact Assembler.opened_roomy hpos

/-- Where `n_maxlen_rx` is 0, no segment is stored. -/
theorem Saves.pos {a : Assembler} (hs : s.Roomy) (h : Saves s f a) : 0 < s.nMaxlenRx := by
  have hopens := h.opens
  generalize hsome : some a = asm at hopens
  cases hopens with
  | next => exact (hs a hsome.symm h.awaited.1).pos
  | kept _ ha => exact (hs a (ha.trans hsome.symm) h.awaited.1).pos
  | new m hfirst =>
    obtain rfl := Option.some.inj hsome
    have hlen : 1 ≤ f.segData.length := by
      have hlong : ¬f.infolen < 2 := fun hlt => h.taken (.inl hlt)
      rw [Frame.length_segData hfirst]
      omega
    have hsize : f.segData.length ≤ (f.segCount + 1) * s.nMaxlenRx := by
      simpa [Assembler.opened] using h.fits
    exact Nat.pos_of_mul_pos_left (lt_of_lt_of_le hlen hsize)

/-- What is stored leaves room for the rest. -/
theorem Saves.roomy {a : Assembler} (hs : s.Roomy) (hn : s.nMaxlenRx < 2 ^ 64) (h : Saves s f a) :
    (a.save f.segData).Roomy s.nMaxlenRx := by
  have hpos := h.pos hs
  have hlen : f.segData.length ≤ s.nMaxlenRx - 1 := sizeSub_one hpos hn ▸ h.short
  exact (h.opens.roomy hs h.awaited.1 hpos).save h.awaited hlen

/-- A segment leaves room for those that are to come. -/
theorem SegmentEffect.roomy (h : SegmentEffect s f refuses asm msg) (hs : s.Roomy)
    (hn : s.nMaxlenRx < 2 ^ 64) (hf : f.infolen < 2 ^ 64) {a : Assembler} (ha : asm = some a)
    (htotal : a.total ≠ 0) : a.Roomy s.nMaxlenRx := by
  cases h with
  | refused => exact hs a ha htotal
  | noMemory => cases ha
  | stopped =>
    obtain ⟨b, -, rfl⟩ := Option.map_eq_some_iff.mp ha
    exact absurd rfl htotal
  | overlong _ hopens _ hlong =>
    cases ha
    refine hopens.roomy hs htotal (Nat.pos_of_ne_zero fun hzero => ?_)
    have hlen := f.length_segData_le
    rw [hzero, show sizeSub 0 1 = 2 ^ 64 - 1 by rfl] at hlong
    omega
  | saved hsaves =>
    cases ha
    exact hsaves.roomy hs hn
  | unwritten hsaves =>
    cases ha
    exact hsaves.roomy hs hn
  | delivered =>
    cases ha
    exact absurd rfl htotal

end

/-! ## Runs -/

/-- What the handlers make of a socket that has room. -/
def Sock.After (s : Sock) (p : Ptr) (w : World) : Prop :=
  ∃ s', w.heap p = some s' ∧ s'.Roomy ∧ s'.nMaxlenRx = s.nMaxlenRx

namespace M

variable {w : World} {p : Ptr} {s : Sock} {frame : Frame}

/-- What only sends leaves room. -/
theorem after_quiet {α : Type} {m : M α} (hm : Quiet m) {s' : Sock} (hp : w.heap p = some s')
    (hs' : s'.Roomy) (hn : s'.nMaxlenRx = s.nMaxlenRx) :
    wp m (fun _ w' => s.After p w') (fun _ => True) w :=
  wp_intro fun _ _ h =>
    ⟨s', (congrFun (congrArg Core.heap (hm.core _ _ _ h)) p).trans hp, hs', hn⟩

theorem handleSegment_after {s' : Sock} (hp : w.heap p = some s') (hs' : s'.Roomy)
    (heq : s'.nMaxlenRx = s.nMaxlenRx) (hn : s.nMaxlenRx < 2 ^ 64) (hf : frame.infolen < 2 ^ 64) :
    wp (handleSegment p frame) (fun _ w' => s.After p w') (fun _ => True) w := by
  refine (handleSegment_spec hp).post fun _ w' h => ?_
  obtain ⟨asm, msg, heffect, hheap, -⟩ := h
  exact ⟨_, hheap, fun _ => heffect.roomy hs' (heq ▸ hn) hf, heq⟩

theorem iAnswer_after {s' : Sock} (hp : w.heap p = some s') (hs' : s'.Roomy)
    (heq : s'.nMaxlenRx = s.nMaxlenRx) :
    wp (iAnswer p frame) (fun _ w' => s.After p w') (fun _ => True) w := by
  rw [iAnswer, wp_bind]
  refine wp_deref_some hp ?_
  rw [wp_ite, wp_ite]
  refine ⟨fun _ => ?_, fun _ => ⟨fun _ => ⟨_, heap_setSock, hs', heq⟩,
    fun _ => ⟨_, heap_setSock, hs', heq⟩⟩⟩
  rw [wp_bind, wp_store]
  exact after_quiet quiet_sendRr heap_setSock hs' heq

theorem iDeliver_after {s' : Sock} (hp : w.heap p = some s') (hs' : s'.Roomy)
    (heq : s'.nMaxlenRx = s.nMaxlenRx) (hn : s.nMaxlenRx < 2 ^ 64) (hf : frame.infolen < 2 ^ 64)
    (hproto : frame.proto = PATTY_AX25_PROTO_FRAGMENT) :
    wp (iDeliver p frame) (fun _ w' => s.After p w') (fun _ => True) w := by
  rw [iDeliver, if_pos hproto, wp_bind]
  refine (handleSegment_after hp hs' heq hn hf).post fun r w' h => ?_
  obtain ⟨s'', hp'', hs'', heq''⟩ := h
  rw [wp_ite]
  exact ⟨fun _ => ⟨s'', hp'', hs'', heq''⟩, fun _ => iAnswer_after hp'' hs'' heq''⟩

theorem handleI_after {i : Nat} (hp : w.heap p = some s) (hs : s.Roomy) (hn : s.nMaxlenRx < 2 ^ 64)
    (hf : frame.infolen < 2 ^ 64) (hproto : frame.proto = PATTY_AX25_PROTO_FRAGMENT) :
    wp (handleI i (some p) frame) (fun _ w' => s.After p w') (fun _ => True) w := by
  rw [handleI, wp_bind]
  refine wp_deref_some hp ?_
  rw [wp_ite]
  refine ⟨fun _ => ?_, fun _ => ?_⟩
  · rw [wp_ite]
    exact ⟨fun _ => after_quiet quiet_replyDm hp hs rfl, fun _ => ⟨s, hp, hs, rfl⟩⟩
  · rw [wp_bind, wp_lift]
    refine ⟨fun s' hack => ?_, fun _ _ => trivial⟩
    obtain ⟨slots, va, vs, t1, retries, rfl⟩ := Sock.frameAck_eq hack
    rw [wp_bind, wp_store, iReceive, wp_bind]
    refine wp_deref_some heap_setSock ?_
    rw [wp_ite, wp_ite, wp_ite]
    refine ⟨fun _ => ?_, fun _ => ⟨fun _ => ?_, fun _ => ⟨fun _ => ?_, fun _ => ?_⟩⟩⟩
    · rw [wp_bind, wp_store]
      exact iDeliver_after heap_setSock hs rfl hn hf hproto
    · exact after_quiet quiet_sendSrej heap_setSock hs rfl
    · exact after_quiet quiet_sendRej heap_setSock hs rfl
    · exact iDeliver_after heap_setSock hs rfl hn hf hproto

theorem handleUi_after (hp : w.heap p = some s) (hs : s.Roomy) (hn : s.nMaxlenRx < 2 ^ 64)
    (hf : frame.infolen < 2 ^ 64) (hproto : frame.proto = PATTY_AX25_PROTO_FRAGMENT) :
    wp (handleUi (some p) frame) (fun _ w' => s.After p w') (fun _ => True) w := by
  rw [handleUi, wp_bind]
  refine wp_deref_some hp ?_
  rw [wp_ite, if_pos hproto]
  exact ⟨fun _ => ⟨s, hp, hs, rfl⟩, fun _ => handleSegment_after hp hs rfl hn hf⟩

end M

/-- The socket has room, and its `n_maxlen_rx` is a `size_t`. -/
def HasRoom (p : Ptr) (w : World) : Prop :=
  ∃ s, w.heap p = some s ∧ s.Roomy ∧ s.nMaxlenRx < 2 ^ 64

theorem Between.hasRoom {p : Ptr} {w w' : World} (h : Between p w w') (hw : HasRoom p w) :
    HasRoom p w' := by
  obtain ⟨s, s', hp, hp', hasm, hn⟩ := h
  obtain ⟨s₀, hp₀, hroomy, hlt⟩ := hw
  obtain rfl := Option.some.inj (hp.symm.trans hp₀)
  refine ⟨s', hp', fun a ha htotal => ?_, hn ▸ hlt⟩
  rw [hn]
  exact hroomy a (hasm.symm.trans ha) htotal

theorem FragStep.hasRoom {p : Ptr} {w w' : World} {x : Fragment} (hw : HasRoom p w)
    (h : FragStep p w x w') : HasRoom p w' := by
  obtain ⟨s, hp, hs, hn⟩ := h.1.hasRoom hw
  have hafter : wp (x.handled p) (fun _ w' => s.After p w') (fun _ => True) x.world := by
    rw [Fragment.handled, wp_ite]
    exact ⟨fun _ => M.handleI_after hp hs hn x.infolen_lt x.proto,
      fun _ => M.handleUi_after hp hs hn x.infolen_lt x.proto⟩
  obtain ⟨s', hp', hs', heq⟩ := hafter.after h.2
  exact ⟨s', hp', hs', heq ▸ hn⟩

/-! ## The call in a server with room -/

namespace M

variable {w w' : World} {s s' : Sock} {n : Nat}

theorem alloc_true (hw : w.HasMemory) : ∃ w', alloc w = .ok (true, w') := by
  rw [World.HasMemory] at hw
  rw [alloc, bind_run, answer]
  rcases halloc : w.sys.alloc with _ | ⟨ok, as⟩
  · exact ⟨_, rfl⟩
  · cases ok with
    | true => exact ⟨_, rfl⟩
    | false => simp [halloc] at hw

theorem alloc_false (hw : ¬w.HasMemory) : ∃ w', alloc w = .ok (false, w') := by
  rw [World.HasMemory, ne_eq, not_not, List.head?_eq_some_iff] at hw
  obtain ⟨as, halloc⟩ := hw
  rw [alloc, bind_run, answer, halloc]
  exact ⟨_, rfl⟩

theorem junk_ok (w : World) : ∃ m w', junk w = .ok (m, w') := by
  rw [junk, answer]
  cases w.sys.junk with
  | nil => exact ⟨_, _, rfl⟩
  | cons m ms => exact ⟨_, _, rfl⟩

/-- With memory, a reassembler that is too small is replaced. -/
theorem assemblerInit_new (hn : 2 ≤ n) (hall : s.assembler.all (·.total < n)) (hw : w.HasMemory) :
    ∃ m w', assemblerInit s n w =
      .ok ((true, { s with assembler := some (.opened n s.nMaxlenRx m) }), w') := by
  obtain ⟨w₁, halloc⟩ := alloc_true hw
  obtain ⟨m, w₂, hjunk⟩ := junk_ok w₁
  refine ⟨m, w₂, ?_⟩
  rw [assemblerInit, if_neg (by omega), if_pos hall, bind_ok halloc, if_pos rfl, bind_ok hjunk]
  rfl

theorem assemblerInit_noMemory (hn : 2 ≤ n) (hall : s.assembler.all (·.total < n))
    (hw : ¬w.HasMemory) : ∃ r w', assemblerInit s n w = .ok ((false, r), w') := by
  obtain ⟨w₁, halloc⟩ := alloc_false hw
  rw [assemblerInit, if_neg (by omega), if_pos hall, bind_ok halloc, if_neg (by simp)]
  exact ⟨_, _, rfl⟩

end M

theorem HandsOver.hasRoom {p : Ptr} {x : Fragment} {w : World} (h : HandsOver p x w)
    (hx : HasRoom p x.world) : HasRoom p w := by
  obtain ⟨s₀, hp₀, hs₀, hn⟩ := hx
  cases h with
  | expected _ hp _ hack =>
    obtain rfl := Option.some.inj (hp₀.symm.trans hp)
    obtain ⟨slots, va, vs, t1, retries, rfl⟩ := Sock.frameAck_eq hack
    exact ⟨_, M.heap_setSock, hs₀, hn⟩
  | behind _ hp _ hack =>
    obtain rfl := Option.some.inj (hp₀.symm.trans hp)
    obtain ⟨slots, va, vs, t1, retries, rfl⟩ := Sock.frameAck_eq hack
    exact ⟨_, M.heap_setSock, hs₀, hn⟩
  | ui _ hp => exact ⟨s₀, hp₀, hs₀, hn⟩

theorem Sock.awaits_of_pending {s : Sock} {a : Assembler} {count : Nat} (ha : s.assembler = some a)
    (h : s.assemblerPending count) : a.Awaits count := by
  simpa [Sock.assemblerPending, ha, Assembler.Awaits] using h

/-- The reassembler that `patty_ax25_sock_assembler_save` is called for. -/
theorem SaveCall.opens {s s' : Sock} {f : Frame} {w : World} {a : Assembler} (h : SaveCall s f w s')
    (ha : s'.assembler = some a) :
    Opens s f (some a) ∧ a.Awaits f.segCount ∧ s'.nMaxlenRx = s.nMaxlenRx := by
  cases h with
  | first href hfirst hinit hpend =>
    have hcount : f.segCount ≠ 0 := fun h => href (.inr (.inl ⟨hfirst, h⟩))
    refine ⟨?_, Sock.awaits_of_pending ha hpend, ?_⟩
    · obtain ⟨-, hspec⟩ := (M.assemblerInit_spec (by omega)).ok hinit
      cases hspec with
      | new m hall =>
        cases ha
        exact .new m hfirst hall
      | kept hb hle =>
        obtain rfl := Option.some.inj (hb.symm.trans ha)
        exact .kept hfirst hb hle
    · obtain ⟨-, hspec⟩ := (M.assemblerInit_spec (by omega)).ok hinit
      cases hspec <;> rfl
  | later href hfirst hpend => exact ⟨ha ▸ .next hfirst, Sock.awaits_of_pending ha hpend, rfl⟩

/-- Where `n_maxlen_rx` is 0, no message is under way. -/
theorem Sock.Roomy.all {s : Sock} (hs : s.Roomy) (hzero : s.nMaxlenRx = 0) (n : Nat) :
    s.assembler.all (·.total < n + 1) := by
  cases ha : s.assembler with
  | none => rfl
  | some a =>
    have htotal : a.total = 0 := by
      by_contra hne
      exact absurd (hs a ha hne).pos (by omega)
    simp [htotal]

/-- Where `n_maxlen_rx` is 0, only a first segment is stored. -/
theorem SaveCall.first_of_zero {s s' : Sock} {f : Frame} {w : World} (h : SaveCall s f w s')
    (hs : s.Roomy) (hzero : s.nMaxlenRx = 0) :
    w.HasMemory ∧ f.segFirst = true ∧ ¬f.segRefused 0 := by
  cases h with
  | first href hfirst hinit hpend =>
    refine ⟨?_, hfirst, hzero ▸ href⟩
    have hcount : f.segCount ≠ 0 := fun h => href (.inr (.inl ⟨hfirst, h⟩))
    by_contra hno
    obtain ⟨r, w', hfail⟩ := M.assemblerInit_noMemory (by omega) (hs.all hzero f.segCount) hno
    rw [hinit] at hfail
    cases hfail
  | later href hfirst hpend =>
    refine absurd (.inr (.inr ⟨hfirst, ?_⟩)) href
    have hlong : ¬f.infolen < 2 := fun h => href (.inl h)
    omega

/-- Between two frames, the next one is stored inside exactly if it does not overrun the reassembler of a
socket whose `n_maxlen_rx` is 0. -/
theorem HasRoom.inside_next {p : Ptr} {x : Fragment} (hx : HasRoom p x.world) :
    Inside p x ↔ ¬Overruns p x := by
  constructor
  · rintro hinside ⟨w, s, hhands, hp, hzero, hmem, hfirst, href⟩
    obtain ⟨s₀, hp₀, hs, -⟩ := hhands.hasRoom hx
    obtain rfl := Option.some.inj (hp.symm.trans hp₀)
    have hcount : x.frame.segCount ≠ 0 := fun h => href (.inr (.inl ⟨hfirst, h⟩))
    obtain ⟨m, w', hinit⟩ := M.assemblerInit_new (by omega) (hs.all hzero x.frame.segCount) hmem
    have hlong : ¬x.frame.infolen < 2 := fun h => href (.inl h)
    have hlen := x.frame.length_segData hfirst
    have hlt := x.infolen_lt
    have hshort : x.frame.segData.length ≤ sizeSub s.nMaxlenRx 1 := by
      rw [hzero, show sizeSub 0 1 = 2 ^ 64 - 1 by rfl]
      omega
    have hin := (hinside w s _ _ hhands hp
      (.first (hzero ▸ href) hfirst hinit (by simp [Sock.assemblerPending, Assembler.opened])) rfl
      hshort).2
    change 0 + _ ≤ _ * s.nMaxlenRx at hin
    rw [hzero] at hin
    omega
  · rintro hno w s s' a hhands hp hcall ha hlen
    obtain ⟨s₀, hp₀, hs, hn⟩ := hhands.hasRoom hx
    obtain rfl := Option.some.inj (hp.symm.trans hp₀)
    obtain ⟨hopens, haw, heq⟩ := hcall.opens ha
    have hpos : 0 < s.nMaxlenRx := by
      refine Nat.pos_of_ne_zero fun hzero => ?_
      exact hno ⟨w, s, hhands, hp, hzero, hcall.first_of_zero hs hzero⟩
    rw [heq] at hlen ⊢
    have hroomy := hopens.roomy hs haw.1 hpos
    exact ⟨hroomy.size, hroomy.inside haw (sizeSub_one hpos hn ▸ hlen)⟩

/-- After every run of fragments from a socket as `patty_ax25_sock_new` and the set-up of a connection
leave it, the next fragment is stored inside exactly if it does not overrun the reassembler of a socket
whose `n_maxlen_rx` is 0. -/
theorem inside_iff {p : Ptr} {w t : World} {s : Sock} (hp : w.heap p = some s)
    (hasm : s.assembler = none) (hn : s.nMaxlenRx < 2 ^ 64) (ht : Run (FragStep p) (fun _ _ => True) w t)
    {x : Fragment} (hx : Between p t x.world) : Inside p x ↔ ¬Overruns p x := by
  have hstart : HasRoom p w := ⟨s, hp, fun a ha => by simp [hasm] at ha, hn⟩
  exact (hx.hasRoom (ht.invariant (fun _ _ _ hw _ h => h.hasRoom hw) hstart)).inside_next

/-! ## A message, and one for a new socket -/

/-- The first segment of a message of two. -/
def firstFragment : Fragment where
  iface := 0
  frame := fragmentFrame .i 0 [0x81, 0xf0, 0x61]
  world := .withSock acceptedSock
  type := .inl rfl
  proto := rfl
  infolen_lt := by decide

theorem firstFragment_isSome : ((firstFragment.handled 0).after firstFragment.world).isSome := by
  decide

/-- The second segment of the message. -/
def secondFragment : Fragment where
  iface := 0
  frame := fragmentFrame .i 1 [0x00, 0x62]
  world := ((firstFragment.handled 0).after firstFragment.world).get firstFragment_isSome
  type := .inl rfl
  proto := rfl
  infolen_lt := by decide

/-- The second segment of a message is stored inside what is allocated for the message. -/
theorem inside_second : Inside 0 secondFragment ↔ ¬Overruns 0 secondFragment := by
  have hbetween : Between 0 firstFragment.world firstFragment.world :=
    ⟨acceptedSock, acceptedSock, rfl, rfl, rfl, rfl⟩
  have hstep : FragStep 0 firstFragment.world firstFragment secondFragment.world :=
    ⟨hbetween, (Option.some_get firstFragment_isSome).symm⟩
  obtain ⟨s, hs⟩ := Option.isSome_iff_exists.mp
    (show (secondFragment.world.heap 0).isSome by decide)
  exact inside_iff (s := acceptedSock) rfl rfl (by decide) (.single trivial hstep) ⟨s, s, hs, hs, rfl, rfl⟩

/-- The first segment of a message, for a DGRAM socket as it is created. -/
theorem not_inside_dgram : ¬∀ (type : SockType) (proto p : Nat) (w₀ w t : World) (x : Fragment),
    M.sockNew proto type w₀ = .ok (some p, w) → type = .stream ∨ type = .dgram →
    Run (FragStep p) (fun _ _ => True) w t → Between p t x.world → Inside p x := by
  intro h
  obtain ⟨w, s, hnew, hp, htype, hasm, hzero, hmem⟩ : ∃ w s,
      M.sockNew 0xf0 .dgram (.withSock acceptedSock) = .ok (some 1, w) ∧ w.heap 1 = some s ∧
        s.type = .dgram ∧ s.assembler = none ∧ s.nMaxlenRx = 0 ∧ w.sys.alloc = [] :=
    ⟨_, _, rfl, rfl, rfl, rfl, rfl, rfl⟩
  let x : Fragment :=
    ⟨0, fragmentFrame .ui 0 [0x81, 0xf0], w, .inr rfl, rfl, by decide⟩
  have hbetween : Between 1 w w := ⟨s, s, hp, hp, rfl, rfl⟩
  have hroom : HasRoom 1 w := ⟨s, hp, fun a ha => by simp [hasm] at ha, by omega⟩
  refine (HasRoom.inside_next (x := x) hroom).mp
    (h .dgram 0xf0 1 _ w w x hnew (.inr rfl) .refl hbetween) ?_
  have hmemory : w.HasMemory := by simp [World.HasMemory, hmem]
  have hfirst : (fragmentFrame .ui 0 [0x81, 0xf0]).segFirst = true := by decide
  have href : ¬(fragmentFrame .ui 0 [0x81, 0xf0]).segRefused 0 := by decide
  exact ⟨w, s, .ui rfl hp htype, hp, hzero, hmemory, hfirst, href⟩

end Patty
