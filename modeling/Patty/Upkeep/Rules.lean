import Patty.Place
import Patty.Link.Step

/-! # What the server keeps to

`Moves` is what no store to a socket in memory breaks, `Upkeep` what an invariant of the server has to
allow so that the handlers of the frames keep it, and `Loose` how a socket may be left in any shape until
it is stored again or destroyed. `Kept` is the invariant that all sockets are good. -/

namespace Patty

open Prog

/-! ## What becomes of a socket -/

/-- Some slot holds a frame that was sent and is not acknowledged. -/
def Sock.Owes (s : Sock) : Prop := ∃ n, s.ackPending = .ok n ∧ 0 < n

/-- A connection is being made or ended. -/
def SockState.pending : SockState → Bool
  | .pendingAccept | .pendingConnect | .pendingDisconnect => true
  | _ => false

/-- The part of a socket that says what it has to do: its state, T1 and the slots. -/
structure Duty where
  type : SockType
  fd : Nat
  state : SockState
  mode : SockMode
  running : Bool
  nMaxlenTx : Nat
  txSlots : Option Buf

def Sock.duty (s : Sock) : Duty :=
  ⟨s.type, s.fd, s.state, s.mode, s.timerT1.running, s.nMaxlenTx, s.txSlots⟩

/-- A slot has at least the bytes of its header. -/
def Sock.Small (s : Sock) : Prop := 16 + s.nMaxlenTx < 2 ^ 64

/-- What no store to a socket breaks. -/
structure Moves (s s' : Sock) : Prop where
  type : s'.type = s.type
  fd : s'.fd = s.fd
  small : s.Small → s'.Small
  accept : s'.state = .pendingAccept → s.state = .pendingAccept
  pending : s'.state.pending → s'.timerT1.running ∨
    s.state = s'.state ∧ s.timerT1.running = s'.timerT1.running
  owes : s'.type = .stream → s'.state = .established → s'.Owes → s'.timerT1.running ∨
    s.state = .established ∧ s.timerT1.running = s'.timerT1.running ∧ s.Owes

namespace Sock

variable {s s' : Sock}

theorem txSlot_congr (htype : s'.type = s.type) (hmode : s'.mode = s.mode)
    (hlen : s'.nMaxlenTx = s.nMaxlenTx) (hslots : s'.txSlots = s.txSlots) (i : Nat) :
    s'.txSlot i = s.txSlot i := by
  simp only [txSlot, txSeq, slots, txSlotSize, htype, hmode, hlen, hslots]
  rfl

theorem ackPendingLoop_congr (h : ∀ i, s'.txSlot i = s.txSlot i) (n i ret : Nat) :
    s'.ackPendingLoop n i ret = s.ackPendingLoop n i ret := by
  induction n generalizing i ret with
  | zero => rfl
  | succ n ih => simp only [ackPendingLoop, h, ih]

theorem Owes.congr (h : s'.Owes) (htype : s'.type = s.type) (hmode : s'.mode = s.mode)
    (hlen : s'.nMaxlenTx = s.nMaxlenTx) (hslots : s'.txSlots = s.txSlots) : s.Owes := by
  obtain ⟨n, hn, hpos⟩ := h
  rw [ackPending, slots_congr hmode, ackPendingLoop_congr (txSlot_congr htype hmode hlen hslots)] at hn
  exact ⟨n, hn, hpos⟩

theorem Owes.duty (h : s'.Owes) (hd : s'.duty = s.duty) : s.Owes := by
  obtain ⟨htype, -, -, hmode, -, hlen, hslots⟩ := Duty.mk.inj hd
  exact h.congr htype hmode hlen hslots

/-- The slot `i` is zero where it says how much it holds. -/
def Empty (s : Sock) (i : Nat) : Prop := ∀ buf, s.txSlots = some buf → ∀ a, s.txSeq i * s.txSlotSize ≤ a →
  a < s.txSeq i * s.txSlotSize + 8 → buf.mem a = 0

theorem txSlot_array {i : Nat} {buf : Buf} {off : Nat} (h : s.txSlot i = .ok (buf, off)) :
    s.txSlots = some buf ∧ off = s.txSeq i * s.txSlotSize := by
  unfold txSlot at h
  split at h
  · cases h
  · dsimp only at h
    split at h
    · cases h
      exact ⟨‹_›, rfl⟩
    · cases h

theorem leBytes_zero (n i : Nat) : (leBytes n 0).getD i 0 = 0 := by
  induction n generalizing i with
  | zero => rfl
  | succ n ih =>
    cases i with
    | zero => rfl
    | succ i => exact ih i

/-- Clearing a slot stores zeros only. -/
theorem slotClear_zero (m : Mem) (off a : Nat) :
    (off ≤ a → a < off + 8 → slotClear m off 0 a = 0) ∧ (m a = 0 → slotClear m off 0 a = 0) := by
  have hstore (m : Mem) (off n : Nat) (h : m a = 0) : m.store off (leBytes n 0) a = 0 := by
    rw [Mem.store]
    split
    · exact leBytes_zero n _
    · exact h
  refine ⟨fun h1 h2 => hstore _ _ _ ?_, fun h => hstore _ _ _ (hstore _ _ _ h)⟩
  rw [Mem.store, if_pos (by rw [length_leBytes]; exact ⟨h1, h2⟩)]
  exact leBytes_zero 8 _

theorem Empty.clear {j off : Nat} {buf : Buf} (h : s.txSlots = some buf) (hj : s.Empty j) :
    (s.setSlots buf (slotClear buf.mem off 0)).Empty j := by
  rintro _ ⟨⟩ a h1 h2
  exact (slotClear_zero buf.mem off a).2 (hj buf h a h1 h2)

/-- After the slots from `i` on are cleared these are empty, and those that were empty still are. -/
theorem clearSlots_empty {n i : Nat} (h : s.clearSlots n i = .ok s') :
    (∀ j, s.Empty j → s'.Empty j) ∧ ∀ j, i ≤ j → j < i + n → s'.Empty j := by
  induction n generalizing i s with
  | zero =>
    cases h
    exact ⟨fun _ hj => hj, by omega⟩
  | succ n ih =>
    rw [clearSlots] at h
    obtain ⟨⟨buf, off⟩, hslot, h⟩ := Except.bind_eq_ok h
    obtain ⟨harray, hoff⟩ := txSlot_array hslot
    obtain ⟨hkept, hnew⟩ := ih h
    refine ⟨fun j hj => hkept j (hj.clear harray), fun j h1 h2 => ?_⟩
    by_cases he : j = i
    · subst he
      refine hkept j ?_
      rintro _ ⟨⟩ a h1 h2
      exact (slotClear_zero buf.mem off a).1 (hoff ▸ h1) (hoff ▸ h2)
    · exact hnew j (by omega) (by omega)

theorem ackPendingLoop_empty {n i ret ret' : Nat} (hempty : ∀ j, i ≤ j → j < i + n → s.Empty j)
    (h : s.ackPendingLoop n i ret = .ok ret') : ret' = ret := by
  induction n generalizing i ret with
  | zero => exact (Except.ok.inj h).symm
  | succ n ih =>
    rw [ackPendingLoop] at h
    obtain ⟨⟨buf, off⟩, hslot, h⟩ := Except.bind_eq_ok h
    obtain ⟨harray, hoff⟩ := txSlot_array hslot
    have hread : buf.mem.read off 8 = Mem.read (fun _ => 0) off 8 :=
      Mem.read_congr fun a h1 h2 => hempty i le_rfl (by omega) buf harray a (hoff ▸ h1) (hoff ▸ h2)
    have hlen : slotLen buf.mem off = 0 := by
      rw [slotLen, hread, Mem.read_const]
      decide
    dsimp only at h
    rw [hlen] at h
    exact ih (fun j h1 h2 => hempty j (by omega) (by omega)) h

/-- A socket whose slots are cleared owes nothing. -/
theorem not_owes_clearSlots {m : Nat} (h : s.clearSlots m 0 = .ok s') (hm : s.slots = m) : ¬s'.Owes := by
  subst hm
  rintro ⟨n, hn, hpos⟩
  have hslots : s'.slots = s.slots := by
    obtain ⟨slots, rfl⟩ := clearSlots_eq h
    rfl
  rw [ackPending, hslots] at hn
  have hzero := ackPendingLoop_empty (fun j h1 h2 => (clearSlots_empty h).2 j h1 h2) hn
  omega

end Sock

namespace Moves

variable {s s' s'' : Sock}

theorem stay (h : s'.duty = s.duty) : Moves s s' := by
  obtain ⟨htype, hfd, hstate, -, hrun, hlen, -⟩ := Duty.mk.inj h
  refine ⟨htype, hfd, fun hs => ?_, fun hs => hstate ▸ hs, fun _ => .inr ⟨hstate.symm, hrun.symm⟩,
    fun _ hs ho => .inr ⟨hstate ▸ hs, hrun.symm, ho.duty h⟩⟩
  rw [Sock.Small, hlen]
  exact hs

/-- With T1 running a socket may do anything but wait to be accepted. -/
theorem runs (htype : s'.type = s.type) (hfd : s'.fd = s.fd) (hsmall : s.Small → s'.Small)
    (haccept : s'.state = .pendingAccept → s.state = .pendingAccept) (hrun : s'.timerT1.running) :
    Moves s s' := ⟨htype, hfd, hsmall, haccept, fun _ => .inl hrun, fun _ _ _ => .inl hrun⟩

/-- A socket whose connection is neither made nor ended, and that owes nothing. -/
theorem settles (htype : s'.type = s.type) (hfd : s'.fd = s.fd) (hsmall : s.Small → s'.Small)
    (hstate : s'.state.pending = false)
    (howes : s'.type = .stream → s'.state = .established → ¬s'.Owes) : Moves s s' where
  type := htype
  fd := hfd
  small := hsmall
  accept h := by simp [h, SockState.pending] at hstate
  pending h := by simp [hstate] at h
  owes ht hs ho := absurd ho (howes ht hs)

/-- New slots owe nothing. -/
theorem clears (htype : s'.type = s.type) (hfd : s'.fd = s.fd) (hsmall : s.Small → s'.Small)
    (hstate : s'.state = s.state) (hrun : s'.timerT1.running = s.timerT1.running)
    (howes : s'.state = .established → ¬s'.Owes) : Moves s s' where
  type := htype
  fd := hfd
  small := hsmall
  accept h := hstate ▸ h
  pending _ := .inr ⟨hstate.symm, hrun.symm⟩
  owes _ hs ho := absurd ho (howes hs)

theorem trans (h : Moves s s') (h' : Moves s' s'') : Moves s s'' where
  type := h'.type.trans h.type
  fd := h'.fd.trans h.fd
  small hs := h'.small (h.small hs)
  accept hs := h.accept (h'.accept hs)
  pending hs := by
    rcases h'.pending hs with hrun | ⟨hstate, hrun⟩
    · exact .inl hrun
    · rw [← hrun, ← hstate]
      exact h.pending (hstate ▸ hs)
  owes ht hs ho := by
    rcases h'.owes ht hs ho with hrun | ⟨hstate, hrun, ho'⟩
    · exact .inl hrun
    · rw [← hrun]
      exact h.owes (h'.type ▸ ht) hstate ho'

end Moves

theorem Sock.reset_moves {s s' : Sock} (h : s.reset = .ok s') : Moves s s' := by
  rw [reset] at h
  obtain ⟨s₁, hclear, h⟩ := Except.bind_eq_ok h
  obtain ⟨slots, rfl⟩ := clearSlots_eq hclear
  cases h
  exact .runs rfl rfl (fun h => h) (fun h => h) rfl

/-- New buffers owe nothing. -/
theorem M.initBufs_owes {s : Sock} {w : World} :
    wp (initBufs s) (fun r _ => r.1 = true → ¬r.2.Owes) (fun _ => True) w := by
  rw [initBufs, wp_bind]
  refine wp_intro fun ok₁ w₁ _ => ?_
  rw [wp_ite]
  refine ⟨fun _ => ?_, fun _ h => absurd h Bool.false_ne_true⟩
  rw [wp_bind]
  refine wp_intro fun ok₂ w₂ _ => ?_
  rw [wp_ite]
  refine ⟨fun _ => ?_, fun _ h => absurd h Bool.false_ne_true⟩
  rw [wp_bind]
  refine wp_intro fun ok₃ w₃ _ => ?_
  rw [wp_ite]
  refine ⟨fun _ => ?_, fun _ h => absurd h Bool.false_ne_true⟩
  rw [wp_bind]
  refine wp_intro fun m w₄ _ => ?_
  rw [wp_bind, wp_lift]
  refine ⟨fun s' h _ => ?_, fun _ _ => trivial⟩
  exact Sock.not_owes_clearSlots h rfl

theorem M.sockBindIf_duty {s : Sock} {w : World} {i : Nat} :
    wp (sockBindIf s i) (fun s' _ => s'.duty = s.duty) (fun _ => True) w := by
  rw [sockBindIf, wp_bind, wp_getIface]
  refine ⟨fun iface _ => ?_, fun _ => trivial⟩
  rw [wp_ite]
  refine ⟨fun _ => ?_, fun _ => rfl⟩
  rw [wp_bind]
  exact wp_intro fun _ _ _ => rfl

/-! ## Invariants of the server -/

/-- An invariant `K` of the server under which all sockets are `Good`, and what it has to allow so that
it is kept. Only the sockets that are `Mine` are changed. -/
structure Upkeep (K : World → Prop) (Good : Ptr → Sock → Prop) (Mine : Ptr → Prop) : Prop where
  good : ∀ {w p s}, K w → w.heap p = some s → Good p s
  moves : ∀ {p s s'}, Good p s → Moves s s' → Good p s'
  quiet : ∀ {α : Type} {m : M α}, M.Quiet m → Keeps K (fun _ => True) m
  store : ∀ {p s}, Mine p → Good p s → Keeps K (fun _ => True) (M.store p s)
  sockNew : ∀ {proto type w}, K w → wp (M.sockNew proto type)
    (fun r w' => K w' ∧ ∀ p ∈ r, Mine p) (fun _ => True) w
  sockSave : ∀ {c p}, Mine p → Keeps K (fun _ => True) (M.sockSave c p)
  sockDestroy : ∀ {p}, Mine p → Keeps K (fun _ => True) (M.sockDestroy p)
  sockClose : ∀ {p}, Mine p → Keeps K (fun _ => True) (M.sockClose p)

/-- A new socket that waits to be accepted with T1 running is good, whatever else it is. -/
def BornGood (Good : Ptr → Sock → Prop) (p : Ptr) : Prop := ∀ s s', Good p s → s'.type = s.type →
  s'.fd = s.fd → (s.Small → s'.Small) → s'.timerT1.running → Good p s'

/-- Under `K'` the socket `p` may have any shape, and all is well again once it is `Good` or gone. If it
cannot be closed, it may be left so where `Fails` holds. -/
structure Loose (K K' : World → Prop) (Good Good' : Ptr → Sock → Prop) (Fails : World → Prop) (p : Ptr) :
    Prop where
  loosen : ∀ {w}, K w → K' w
  any : ∀ {s s'}, Good' p s → s'.fd = s.fd → Good' p s'
  settle : ∀ {w s}, K' w → Good p s → K (w.setSock p s)
  destroy : ∀ {w}, K' w → wp (M.sockDestroy p) (fun _ w' => K w') (fun _ => True) w
  close : ∀ {w}, K' w → wp (M.sockClose p) (fun r w' => K w' ∨ Fails w' ∧ r < 0 ∧ w'.errno = w.errno)
    (fun _ => True) w

/-- The socket `p` can be let loose. -/
def CanLoose (K : World → Prop) (Good : Ptr → Sock → Prop) (Mine : Ptr → Prop) (Fails : World → Prop)
    (p : Ptr) : Prop := ∃ K' Good', Upkeep K' Good' Mine ∧ Loose K K' Good Good' Fails p

/-! ## All sockets are good -/

/-- All sockets are `Good`, the next one that is made is `n` or later, and the accept messages are as `A`
says. -/
structure Kept (Good : Ptr → Sock → Prop) (A : List (Nat × Nat) → Prop) (n : Ptr) (w : World) :
    Prop where
  socks : ∀ q s, w.heap q = some s → Good q s
  next : n ≤ w.next
  accepts : A w.accepts

/-- What has to be kept of the sockets, where those from `n` on are new. -/
structure Lasting (Good : Ptr → Sock → Prop) (n : Ptr) : Prop where
  moves : ∀ {p s s'}, Good p s → Moves s s' → Good p s'
  fresh : ∀ {p s type fd}, n ≤ p → s.place = M.newPlace type fd → s.Small → Good p s

/-- `Good`, with nothing said of the socket `p`. -/
def Exempt (p : Ptr) (Good : Ptr → Sock → Prop) (q : Ptr) (s : Sock) : Prop := q = p ∨ Good q s

theorem Lasting.exempt {Good : Ptr → Sock → Prop} {n p : Ptr} (L : Lasting Good n) :
    Lasting (Exempt p Good) n where
  moves h hm := h.imp_right fun h => L.moves h hm
  fresh hq hs hsmall := .inr (L.fresh hq hs hsmall)

variable {K : World → Prop} {Good : Ptr → Sock → Prop} {A : List (Nat × Nat) → Prop} {n p : Ptr} {s : Sock}
  {w : World}

/-- Storing a good socket, whatever the socket was before. -/
theorem Kept.setSock (hw : Kept (Exempt p Good) A n w) (h : Good p s) : Kept Good A n (w.setSock p s) := by
  refine ⟨fun q t hq => ?_, hw.next, hw.accepts⟩
  by_cases hne : q = p
  · subst hne
    rw [M.heap_setSock] at hq
    obtain rfl := Option.some.inj hq
    exact h
  · exact (hw.socks q t ((Function.update_of_ne hne ..).symm.trans hq)).resolve_left hne

theorem Kept.mono {Good' : Ptr → Sock → Prop} (hw : Kept Good A n w) (h : ∀ q s, Good q s → Good' q s) :
    Kept Good' A n w := ⟨fun q s hq => h q s (hw.socks q s hq), hw.next, hw.accepts⟩

/-- Nothing is said of the sockets. -/
abbrev Left (A : List (Nat × Nat) → Prop) (n : Ptr) : World → Prop := Kept (fun _ _ => True) A n

theorem Kept.left (hw : Kept Good A n w) : Left A n w := hw.mono fun _ _ _ => trivial

theorem Kept.exempt (hw : Kept Good A n w) : Kept (Exempt p Good) A n w :=
  ⟨fun q s hq => .inr (hw.socks q s hq), hw.next, hw.accepts⟩

namespace M

variable {α : Type}

/-- `m` keeps `K`. -/
abbrev Keeping (K : World → Prop) (m : M α) : Prop := Keeps K (fun _ => True) m

/-! ## The tables -/

/-- `m` changes no socket, makes none, and writes no accept message. -/
abbrev Still (m : M α) : Prop := Leaves (fun w => (w.heap, w.next, w.accepts)) m

theorem Quiet.still {m : M α} (h : Quiet m) : Still m :=
  h.comp (g := fun x => (x.1.1.heap, x.1.1.next, x.2.2))

theorem Still.kept {m : M α} (h : Still m) : Keeping (Kept Good A n) m := by
  refine .of_leaves h fun w w' hw hk => ?_
  obtain ⟨hheap, hw⟩ := Prod.mk.inj hw
  obtain ⟨hnext, haccepts⟩ := Prod.mk.inj hw
  exact ⟨fun q s hq => hk.socks q s (by rw [← hheap]; exact hq), by rw [hnext]; exact hk.next,
    by rw [haccepts]; exact hk.accepts⟩

theorem still_unlisted : Unlisted fun w => (w.heap, w.next, w.accepts) := fun _ _ _ _ _ _ => rfl

theorem still_clientSaveBySock {c : Nat} : Still (clientSaveBySock c s) :=
  Unlisted.clientSaveBySock still_unlisted quiet_dictRoom.still

theorem still_sockSaveLocal : Still (sockSaveLocal p s) := Unlisted.sockSaveLocal still_unlisted quiet_dictRoom.still

theorem still_sockSaveRemote : Still (sockSaveRemote p s) := Unlisted.sockSaveRemote still_unlisted quiet_dictRoom.still

theorem still_deleteByState : Still (deleteByState s) := Unlisted.deleteByState still_unlisted

theorem still_sockSave {c : Nat} : Still (sockSave c p) := Unlisted.sockSave still_unlisted quiet_dictRoom.still

theorem still_closeFd {fd : Nat} : Still (closeFd fd) := .modify fun _ => rfl

theorem still_closePty : Still (closePty s) := .ite still_closeFd .pure

/-! ## Sockets in memory -/

/-- A socket in memory is good. -/
theorem kept_deref {g : Sock → M α} (hg : ∀ s, Good p s → Keeping (Kept Good A n) (g s)) :
    Keeping (Kept Good A n) (deref p >>= g) := by
  intro w hw
  rw [wp_bind, wp_deref]
  exact ⟨fun s hs => hg s (hw.socks p s hs) w hw, fun _ => trivial⟩

theorem kept_store (h : Good p s) : Keeping (Kept Good A n) (store p s) :=
  fun _ hw => hw.exempt.setSock h

theorem kept_freeSock (hw : Kept (Exempt p Good) A n w) :
    wp (freeSock p) (fun _ w' => Kept Good A n w') (fun _ => True) w := by
  rw [wp_freeSock]
  refine ⟨fun _ _ => ⟨fun q t hq => ?_, hw.next, hw.accepts⟩, fun _ => trivial⟩
  have hq : Function.update w.heap p none q = some t := hq
  by_cases hne : q = p
  · rw [hne, Function.update_self] at hq
    cases hq
  · exact (hw.socks q t ((Function.update_of_ne hne ..).symm.trans hq)).resolve_left hne

theorem kept_sockDestroy (hw : Kept (Exempt p Good) A n w) :
    wp (sockDestroy p) (fun _ w' => Kept Good A n w') (fun _ => True) w := by
  rw [sockDestroy, wp_bind, wp_deref]
  refine ⟨fun s _ => ?_, fun _ => trivial⟩
  rw [wp_bind]
  refine (quiet_leavePromisc.still.kept w hw).post fun _ w₁ hw₁ => ?_
  rw [wp_bind]
  exact (still_closePty.kept w₁ hw₁).post fun _ w₂ hw₂ => kept_freeSock hw₂

theorem errno_deleteByState : Leaves World.errno (deleteByState s) :=
  Unlisted.deleteByState fun _ _ _ _ _ _ => rfl

/-- `sock_close` destroys the socket, or fails and leaves `errno` alone. -/
theorem kept_sockClose (hw : Kept (Exempt p Good) A n w) : wp (sockClose p)
    (fun r w' => Kept Good A n w' ∨ Left A n w' ∧ r < 0 ∧ w'.errno = w.errno) (fun _ => True) w := by
  rw [sockClose, wp_bind, wp_deref]
  refine ⟨fun s _ => ?_, fun _ => trivial⟩
  rw [wp_bind]
  refine ((still_deleteByState.kept w hw).and (errno_deleteByState.wp (fun _ _ h => h) fun _ => trivial)).post ?_
  rintro ok w₁ ⟨hw₁, hne⟩
  have hfail : wp (pure (-1) : M Int)
      (fun r w' => Kept Good A n w' ∨ Left A n w' ∧ r < 0 ∧ w'.errno = w.errno) (fun _ => True) w₁ :=
    .inr ⟨hw₁.left, by decide, hne⟩
  rw [wp_ite]
  refine ⟨fun _ => ?_, fun _ => hfail⟩
  rw [wp_bind, wp_clientBySock]
  split
  · exact hfail
  rw [wp_bind, wp_get]
  split
  · exact hfail
  rw [sockCloseFd, wp_ite]
  refine ⟨fun _ => ?_, fun _ => hfail⟩
  simp only [wp_bind, wp_modify, wp_get, wp_ite]
  refine ⟨fun _ => ?_, fun _ => .inr ⟨⟨fun _ _ _ => trivial, hw₁.next, hw₁.accepts⟩, by decide, hne⟩⟩
  have hclear : Keeping (Kept (Exempt p Good) A n) (fdClear s.fd) := quiet_fdClear.still.kept
  refine (hclear _ (by exact ⟨hw₁.socks, hw₁.next, hw₁.accepts⟩)).post fun _ w₂ hw₂ => ?_
  exact (kept_sockDestroy hw₂).post fun _ w₃ hw₃ => .inl hw₃

theorem keeping_sockClose : Keeping (Kept Good A n) (sockClose p) := by
  have hdestroy : Keeping (Kept Good A n) (sockDestroy p) := fun _ hw => kept_sockDestroy hw.exempt
  refine kept_deref fun s _ => still_deleteByState.kept.bind fun _ =>
    .ite (fun _ => Keeps.gets.bind fun c => ?_) fun _ => .pure
  cases c with
  | none => exact .pure
  | some c =>
    refine .get_bind fun w _ => ?_
    cases w.socksByClient.lookup c with
    | none => exact .pure
    | some d =>
      have hdelete : Still (Prog.modify fun w : World =>
          { w with socksByClient := w.socksByClient.insert c (d.erase s.fd) }) := .modify fun _ => rfl
      have hforget : Still (Prog.modify fun w : World => { w with
          socksByFd := w.socksByFd.erase s.fd, clientsBySock := w.clientsBySock.erase s.fd }) :=
        .modify fun _ => rfl
      refine .ite (fun _ => hdelete.kept.bind fun _ => .get_bind fun w' _ => ?_) fun _ => .pure
      exact .ite (fun _ => hforget.kept.bind fun _ => quiet_fdClear.still.kept.bind fun _ =>
        hdestroy.bind fun _ => .pure) fun _ => .pure

/-! ## New sockets -/

theorem Quiet.accepts {m : M α} (h : Quiet m) : Leaves World.accepts m := h.comp (g := fun x => x.2.2)

theorem accepts_openpty : Leaves World.accepts openpty := by
  refine quiet_answer.accepts.bind fun a => ?_
  cases a with
  | none => exact .pure
  | some a =>
    refine Leaves.get.bind fun w => ?_
    dsimp only
    exact .bind (.modify (by intro; rfl)) fun _ => .pure

theorem accepts_sockNew {proto : Nat} {type : SockType} : Leaves World.accepts (sockNew proto type) := by
  have hsome {s : Sock} : Leaves World.accepts (some <$> newSock s) := by
    intro w a w' h
    cases h
    rfl
  refine quiet_alloc.accepts.bind fun _ => .ite (accepts_openpty.bind fun a => ?_) .pure
  cases a with
  | none => exact .pure
  | some a =>
    have hinit {s : Sock} : Leaves World.accepts 
        (initBufs s >>= fun r => if r.1 then some <$> newSock r.2 else pure none : M (Option Ptr)) :=
      quiet_initBufs.accepts.bind fun _ => .ite hsome .pure
    have hclose {fd : Nat} : Leaves World.accepts (do
        closeFd fd
        pure none : M (Option Ptr)) := Leaves.bind (.modify fun _ => rfl) fun _ => .pure
    cases type with
    | dgram => exact hsome
    | raw =>
      exact quiet_alloc.accepts.bind fun _ => .ite (quiet_alloc.accepts.bind fun _ => .ite
        (quiet_junk.accepts.bind fun _ => hsome) hclose) hclose
    | stream => exact hinit
    | other n => exact hinit

theorem kept_sockNew (L : Lasting Good n) {proto : Nat} {type : SockType} (hw : Kept Good A n w) :
    wp (sockNew proto type) (fun _ w' => Kept Good A n w') (fun _ => True) w := by
  refine wp_intro fun r w' hrun => ?_
  have hnew := sockNew_new.ok hrun
  have haccepts : A w'.accepts := by
    rw [accepts_sockNew _ _ _ hrun]
    exact hw.accepts
  cases r with
  | none =>
    have hcore : w'.core = w.core := hnew
    have hheap : w'.heap = w.heap := congrArg Core.heap hcore
    have hnext : w'.next = w.next := congrArg Core.next hcore
    exact ⟨fun q s hq => hw.socks q s (hheap ▸ hq), hnext ▸ hw.next, haccepts⟩
  | some r =>
    obtain ⟨rfl, s, fd, hs, hlen, hcore⟩ := hnew
    have hheap : w'.heap = Function.update w.heap w.next (some s) := congrArg Core.heap hcore
    have hnext : w'.next = w.next + 1 := congrArg Core.next hcore
    refine ⟨fun q t hq => ?_, hnext ▸ Nat.le_succ_of_le hw.next, haccepts⟩
    by_cases hne : q = w.next
    · subst hne
      rw [hheap, Function.update_self] at hq
      obtain rfl := Option.some.inj hq
      exact L.fresh hw.next hs ((Nat.add_le_add_left hlen 16).trans_lt (by decide))
    · exact hw.socks q t ((Function.update_of_ne hne ..).symm.trans (hheap ▸ hq))

end M

theorem Lasting.upkeep (L : Lasting Good n) :
    Upkeep (Kept Good A n) Good fun _ => True where
  good hw hp := hw.socks _ _ hp
  moves := L.moves
  quiet hm := hm.still.kept
  store _ hs := M.kept_store hs
  sockNew hw := (M.kept_sockNew L hw).post fun _ _ h => ⟨h, fun _ _ => trivial⟩
  sockSave _ := M.still_sockSave.kept
  sockDestroy _ := fun _ hw => M.kept_sockDestroy hw.exempt
  sockClose _ := M.keeping_sockClose

theorem Lasting.canLoose (L : Lasting Good n) (p : Ptr) :
    CanLoose (Kept Good A n) Good (fun _ => True) (Left A n) p := by
  refine ⟨Kept (Exempt p Good) A n, Exempt p Good, L.exempt.upkeep, ?_⟩
  exact ⟨fun hw => hw.exempt, fun _ _ => .inl rfl, fun hw h => hw.setSock h, M.kept_sockDestroy,
    M.kept_sockClose⟩

end Patty
