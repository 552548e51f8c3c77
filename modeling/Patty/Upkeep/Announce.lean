import Patty.Upkeep.Outstanding

/-! # A socket is announced once

A socket waits to be accepted from when it is made, and never again once it does not. Its accept message is
written in the step in which it is established, so that there is only one (`announced_once`). -/

namespace Patty

open Prog

/-- In the step from `w` to `w'` the socket `p` is established, which waited to be accepted or is made in the
step, and its accept message is written to the pty of a socket that listens. -/
def Announces (w w' : World) (p : Ptr) : Prop := ∃ q listener s',
  w.heap q = some listener ∧ listener.state = .listening ∧
  w'.accepts = w.accepts ++ [(listener.fd, s'.fd)] ∧ w'.heap p = some s' ∧ s'.state = .established ∧
  (w.next ≤ p ∧ p < w'.next ∨ ∃ s, w.heap p = some s ∧ s.state = .pendingAccept ∧ s.fd = s'.fd)

/-- At most one accept message is written in the step from `w` to `w'`. -/
def Quietly (w w' : World) : Prop := w'.accepts = w.accepts ∨ ∃ p, Announces w w' p

theorem Announces.congr {w w' w'' : World} {p : Ptr} (h : Announces w w' p) (hcore : w''.core = w'.core)
    (haccepts : w''.accepts = w'.accepts) : Announces w w'' p := by
  have hheap : w''.heap = w'.heap := congrArg Core.heap hcore
  have hnext : w''.next = w'.next := congrArg Core.next hcore
  obtain ⟨q, listener, s', hq, hlisten, hmessage, hp, hstate, hmade⟩ := h
  exact ⟨q, listener, s', hq, hlisten, haccepts.trans hmessage, hheap ▸ hp, hstate, hnext ▸ hmade⟩

/-- `Good` depends on the state of a socket only. -/
def OfState (Good : Ptr → Sock → Prop) : Prop := ∀ {p s s'}, Good p s → s'.state = s.state → Good p s'

theorem OfState.acksWell {Good : Ptr → Sock → Prop} {sock : Option Ptr} {frame : Frame} {w : World}
    (h : OfState Good) :
    AcksWell Good sock frame w := fun _ _ _ _ _ hs _ hs' =>
  h hs (congrArg Place.state (Sock.frameAck_place hs'))

namespace M

variable {w w' : World} {i : Nat} {frame : Frame} {p : Ptr} {s : Sock}

/-! ## The accept message -/

/-- The accept message is written, or the call fails. -/
theorem notifyAccept_writes {a b : Nat} {peer : Addr} {path : Bytes} : wp (notifyAccept a b peer path)
    (fun ok w' => w'.core = w.core ∧ w'.accepts = if ok then w.accepts ++ [(a, b)] else w.accepts)
    (fun _ => True) w := by
  have hset {w₁ : World} (hlog : w₁.log = w.log) : w₁.accepts = w.accepts := by
    rw [World.accepts, World.accepts, hlog]
  have hwrite {w₁ : World} (hcore : w₁.core = w.core) (hlog : w₁.log = w.log) :
      wp (do
        emit (.acceptMessage a b peer path)
        pure true : M Bool)
        (fun ok w' => w'.core = w.core ∧ w'.accepts = if ok then w.accepts ++ [(a, b)] else w.accepts)
        (fun _ => True) w₁ := by
    rw [wp_bind, emit, wp_modify, wp_pure, if_pos rfl, ← hset hlog]
    exact ⟨hcore, List.filterMap_append⟩
  rw [notifyAccept, writePty, wp_bind, wp_answer]
  refine ⟨fun _ => hwrite rfl rfl, fun x xs _ => ?_⟩
  cases x with
  | none => exact hwrite rfl rfl
  | some e => exact ⟨rfl, hset rfl⟩

theorem lasting_true {n : Ptr} : Lasting (fun _ _ => True) n := ⟨fun _ _ => trivial, fun _ _ _ => trivial⟩

/-- The accept message of a socket that `sabmAccept` gets is written once it is established, or not at all. -/
theorem announces_sabmAccept {listener : Sock} {c : Nat} {created : Bool} {l : List (Nat × Nat)} {n : Ptr}
    (hp : w.heap p = some s) (hw : Left (· = l) n w) :
    wp (sabmAccept i frame listener c p created) (fun _ w' => Left (· = l) n w' ∨
      ∃ s', Left (· = l ++ [(listener.fd, s'.fd)]) n w' ∧ w'.heap p = some s' ∧ s'.state = .established ∧
        s'.fd = s.fd) (fun _ => True) w := by
  have hdestroy {w : World} (hw : Left (· = l) n w) : wp (do
      sockDestroy p
      pure (-1) : M Int) (fun _ w' => Left (· = l) n w' ∨
      ∃ s', Left (· = l ++ [(listener.fd, s'.fd)]) n w' ∧ w'.heap p = some s' ∧ s'.state = .established ∧
        s'.fd = s.fd) (fun _ => True) w :=
    wp_bind.mpr ((kept_sockDestroy hw.exempt).post fun _ _ h => .inl h)
  rw [sabmAccept, wp_bind]
  refine wp_deref_some hp ?_
  obtain ⟨s₀, hs₀⟩ : ∃ s₀, s₀ = if frame.type = .sabme then
      { ({ s with state := .established } : Sock).paramsUpgrade with mode := .sabme }
      else { s with state := .established, mode := .sabm } := ⟨_, rfl⟩
  have hplace := Sock.acceptMode_place (s := { s with state := .established }) frame.type
  rw [wp_bind]
  show wp (initBufs (if frame.type = .sabme then
      { ({ s with state := .established } : Sock).paramsUpgrade with mode := .sabme }
      else { s with state := .established, mode := .sabm })) _ _ _
  rw [← hs₀]
  rw [← hs₀] at hplace
  refine ((quiet_initBufs.still.kept w hw).and initBufs_place).post ?_
  rintro ⟨ok, s₁⟩ w₁ ⟨hw₁, hs₁⟩
  have hs₁ := hs₁.trans hplace
  have hfd₁ : s₁.fd = s.fd := congrArg Place.fd hs₁
  have hstate₁ : s₁.state = .established := congrArg Place.state hs₁
  dsimp only
  rw [wp_bind, wp_store, wp_ite]
  have hw₁ : Left (· = l) n (w₁.setSock p s₁) := kept_store trivial _ hw₁
  refine ⟨fun _ => ?_, fun _ => hdestroy hw₁⟩
  rw [wp_bind]
  refine ((quiet_sockBindIf.still.kept _ hw₁).and sockBindIf_duty).post ?_
  rintro s₂ w₂ ⟨hw₂, hs₂⟩
  have hfd₂ : s₂.fd = s.fd := (congrArg Duty.fd hs₂).trans hfd₁
  have hstate₂ : s₂.state = .established := (congrArg Duty.state hs₂).trans hstate₁
  have hsave : Keeping (Left (· = l) n) (if created then sockSave c p else pure true) :=
    .ite (fun _ => still_sockSave.kept) fun _ => .pure
  rw [wp_bind, wp_store, wp_bind]
  refine (hsave _ (kept_store trivial _ hw₂)).post fun ok₁ w₃ hw₃ => ?_
  rw [wp_ite]
  refine ⟨fun _ => ?_, fun _ => hdestroy hw₃⟩
  rw [wp_bind]
  refine (quiet_fdWatch.still.kept w₃ hw₃).post fun _ w₄ hw₄ => ?_
  rw [wp_bind]
  refine notifyAccept_writes.post ?_
  rintro ok₂ w₅ ⟨hcore, haccepts⟩
  have hnext : n ≤ w₅.next := by
    rw [show w₅.next = w₄.next from congrArg Core.next hcore]
    exact hw₄.next
  rw [wp_ite]
  refine ⟨fun hok => ?_, fun hno => hdestroy ⟨fun _ _ _ => trivial, hnext, ?_⟩⟩
  · rw [if_pos hok, hw₄.accepts] at haccepts
    have hw₅ : Left (· = l ++ [(listener.fd, s₂.fd)]) n w₅ := ⟨fun _ _ _ => trivial, hnext, haccepts⟩
    rw [wp_bind, wp_store]
    refine ((quiet_replyUa.still.kept _ (kept_store trivial w₅ hw₅)).and
      (quiet_replyUa.core.wp (fun _ _ h => h) fun _ => trivial)).post ?_
    rintro r w₆ ⟨hw₆, hcore₆⟩
    refine .inr ⟨{ s₂ with timerT3 := s₂.timerT3.start }, hw₆, ?_, hstate₂, hfd₂⟩
    rw [show w₆.heap = _ from congrArg Core.heap hcore₆]
    exact heap_setSock
  · rw [if_neg hno, hw₄.accepts] at haccepts
    exact haccepts

/-- `handle_sabm` writes at most one accept message. -/
theorem announces_handleSabm : wp (handleSabm i frame) (fun _ w' => Quietly w w') (fun _ => True) w := by
  have hw : Left (· = w.accepts) w.next w := ⟨fun _ _ _ => trivial, le_rfl, rfl⟩
  have hquiet {w' : World} {n : Ptr} (h : Left (· = w.accepts) n w') : Quietly w w' := .inl h.accepts
  have hdm : wp (replyDm i frame PATTY_AX25_FRAME_FINAL) (fun _ w' => Quietly w w') (fun _ => True) w :=
    (quiet_replyDm.still.kept w hw).post fun _ _ => hquiet
  rw [handleSabm, wp_bind, wp_sockByAddr]
  split
  · exact hdm
  rename_i q _
  rw [wp_bind, wp_deref]
  refine ⟨fun listener hq => ?_, fun _ => trivial⟩
  rw [wp_ite]
  refine ⟨fun _ => hdm, fun hlisten => ?_⟩
  obtain ⟨-, hlisten⟩ := not_or.mp hlisten
  rw [wp_bind, wp_clientBySock]
  split
  · exact .inl rfl
  rw [wp_bind, wp_sockByAddrpair]
  cases w.socksRemote.lookup (hashAddrpair frame.dest frame.src) with
  | none =>
    dsimp only
    rw [wp_bind]
    refine ((kept_sockNew lasting_true hw).and sockNew_new).post ?_
    rintro (_ | r) w₁ ⟨hw₁, hnew⟩
    · exact hquiet hw₁
    obtain ⟨rfl, _, _, _, _, hcore⟩ := hnew
    have hnext : w₁.next = w.next + 1 := congrArg Core.next hcore
    have hw₁ : Left (· = w.accepts) (w.next + 1) w₁ := ⟨fun _ _ _ => trivial, hnext.ge, hw₁.accepts⟩
    dsimp only
    rw [wp_bind, wp_deref]
    refine ⟨fun s₀ _ => ?_, fun _ => trivial⟩
    rw [wp_bind, wp_store]
    refine (announces_sabmAccept heap_setSock (kept_store trivial w₁ hw₁)).post ?_
    rintro _ w₂ (hw₂ | ⟨s', hw₂, hp, hstate, -⟩)
    · exact hquiet hw₂
    · exact .inr ⟨w.next, q, listener, s', hq, not_not.mp hlisten, hw₂.accepts, hp, hstate,
        .inl ⟨le_rfl, hw₂.next⟩⟩
  | some r =>
    dsimp only
    rw [wp_bind, wp_deref]
    refine ⟨fun s hr => ?_, fun _ => trivial⟩
    split
    · rename_i hpending
      refine (announces_sabmAccept hr hw).post ?_
      rintro _ w₂ (hw₂ | ⟨s', hw₂, hp, hstate, hfd⟩)
      · exact hquiet hw₂
      · exact .inr ⟨r, q, listener, s', hq, not_not.mp hlisten, hw₂.accepts, hp, hstate,
          .inr ⟨s, hr, hpending, hfd.symm⟩⟩
    · have hreset : Keeping (Left (· = w.accepts) w.next) (do
          store r (← lift s.reset)
          if frame.pf = 1 then replyUa i frame 1 else pure 0 : M Int) :=
        .lift_bind (fun _ _ => trivial) fun s' _ => (kept_store trivial).bind fun _ =>
          .ite (fun _ => quiet_replyUa.still.kept) fun _ => .pure
      exact (hreset w hw).post fun _ _ => hquiet
    · exact hdm

/-! ## Any step -/

theorem announces_frameResult {w₀ : World} {r : Int} (h : Quietly w₀ w) :
    wp (frameResult i r) (fun _ w' => Quietly w₀ w') (fun _ => True) w := by
  have hdown : Quiet (do
      let iface ← getIface i
      setIface i fun iface => { iface with status := .down }
      fdClear iface.fd
      pure 0 : M Int) := quiet_getIface.bind fun _ => quiet_setIface.bind fun _ =>
    quiet_fdClear.bind fun _ => .pure
  rw [frameResult, wp_bind, wp_get, wp_ite]
  refine ⟨fun _ => ?_, fun _ => h⟩
  refine wp_intro fun _ w' hrun => ?_
  have hcore := hdown.core _ _ _ hrun
  have haccepts : w'.accepts = w.accepts := hdown.accepts _ _ _ hrun
  exact h.imp haccepts.trans (Exists.imp fun p hp => hp.congr hcore haccepts)

theorem announces_handleFrame {buf : Mem} {len : Nat} :
    wp (handleFrame i buf len) (fun _ w' => Quietly w w') (fun _ => True) w := by
  have hw : Left (· = w.accepts) w.next w := ⟨fun _ _ _ => trivial, le_rfl, rfl⟩
  have U : Upkeep (Left (· = w.accepts) w.next) (fun _ _ => True) fun _ => True := lasting_true.upkeep
  have F (p : Ptr) (_ : True) : CanLoose (Left (· = w.accepts) w.next) (fun _ _ => True) (fun _ => True)
      (Left (· = w.accepts) w.next) p := lasting_true.canLoose p
  have hlisten : Listens (Left (· = w.accepts) w.next) (Left (· = w.accepts) w.next) w.next :=
    listens_of_born U F fun _ _ _ _ _ _ _ => trivial
  refine wp_handleFrame ((quiet_ifDrop.still.kept w hw).post fun _ _ h => .inl h.accepts) fun f hf offset hlook => ?_
  have hw₁ : Left (· = w.accepts) w.next { w with errno := .zero } := ⟨hw.socks, hw.next, hw.accepts⟩
  by_cases htype : f.type = .sabm ∨ f.type = .sabme
  · have hsabm : wp (handleSabm i f) (fun _ w' => Quietly w w') (fun _ => True) { w with errno := .zero } :=
      announces_handleSabm
    rcases htype with htype | htype <;>
    · rw [handleType, htype]
      exact hsabm
  · refine (keeps_handleType (w := { w with errno := .zero }) U F (fun _ h => h) hlisten hlook (fun _ _ => trivial)
      (fun _ _ _ _ _ _ _ _ _ => trivial) (fun h => absurd h htype) hw₁).post fun _ w' h => .inl ?_
    exact h.elim (fun h => h.accepts) fun h => h.1.accepts

/-- What is allowed where only the state matters, and not whether a connection is made. -/
theorem allows_of {Good : Ptr → Sock → Prop} {A : List (Nat × Nat) → Prop} {n : Ptr} {Z : World → Prop}
    {e : Event} (L : Lasting Good n) (hstate : OfState Good)
    (hconnect : ∀ p s, Good p s → s.type = .stream → Good p { s with state := .pendingConnect })
    (hframe : ∀ i buf len, e = .frame i buf len → wp (handleFrame i buf len)
      (fun r w' => Z w' ∨ Left A n w' ∧ r < 0 ∧ w'.errno ≠ .eio) (fun _ => True) w) :
    Allows Good A n Z w e where
  turn _ _ _ _ p _ _ := ⟨_, _, Held.none p, fun _ _ _ _ _ hs _ _ _ _ =>
    sockWrite_differs.post fun _ _ ⟨_, _, hd⟩ _ => hstate hs (by rw [hd]), trivial⟩
  connect _ _ w' _ _ hw' := lasts_connectRequest L hconnect w' hw'
  frame := hframe

/-- An event writes at most one accept message. -/
theorem announces_handleEvent {e : Event} :
    wp (handleEvent e) (fun _ w' => Quietly w w') (fun _ => True) w := by
  by_cases hframe : ∃ i buf len, e = .frame i buf len
  · obtain ⟨i, buf, len, rfl⟩ := hframe
    rw [handleEvent, wp_bind, wp_get]
    split
    · exact .inl rfl
    · rw [wp_ite]
      refine ⟨fun _ => .inl rfl, fun _ => ?_⟩
      rw [wp_bind]
      exact announces_handleFrame.post fun _ _ h => announces_frameResult h
  · have hw : Left (· = w.accepts) w.next w := ⟨fun _ _ _ => trivial, le_rfl, rfl⟩
    refine (lasts_handleEvent lasting_true .refl hw (allows_of lasting_true (fun _ _ => trivial)
      (fun _ _ _ _ => trivial) fun i buf len h => absurd ⟨i, buf, len, h⟩ hframe)).post fun _ _ h => .inl ?_
    exact h.elim (fun h => h.accepts) fun h => h.1.accepts

end M

/-- A step writes at most one accept message. -/
theorem announces_step {w w' : World} {inp : Input} (h : w.Step inp w') : Quietly w w' := by
  obtain ⟨-, r, w₁, hrun, rfl⟩ := M.step_handles h
  have hw₁ : Quietly { w with sys := inp.sys } w₁ := M.announces_handleEvent.ok hrun
  split_ifs
  · exact hw₁.imp id fun ⟨p, hp⟩ => ⟨p, hp.congr rfl rfl⟩
  · exact hw₁

/-! ## Who waits to be accepted -/

/-- Only a socket below `m` waits to be accepted. -/
def WaitsBelow (m q : Ptr) (s : Sock) : Prop := s.state = .pendingAccept → q < m

/-- The socket `p` does not wait to be accepted. -/
def Accepted (p q : Ptr) (s : Sock) : Prop := q = p → s.state ≠ .pendingAccept

theorem waitsBelow_lasting {m n : Ptr} : Lasting (WaitsBelow m) n where
  moves h hm hs := h (hm.accept hs)
  fresh _ hs _ hstate := by
    have hnew := (congrArg Place.state hs).symm.trans hstate
    unfold M.newPlace at hnew
    split_ifs at hnew

theorem accepted_lasting {p n : Ptr} (hp : p < n) : Lasting (Accepted p) n where
  moves h hm hq hs := h hq (hm.accept hs)
  fresh hq _ _ he := absurd (he ▸ hq) hp.not_ge

/-- Who waits to be accepted is below the next socket. -/
def World.Waits (w : World) : Prop := ∀ q s, w.heap q = some s → WaitsBelow w.next q s

theorem waits_step {w w' : World} {inp : Input} (h : w.Step inp w') (hw : w.Waits) :
    w.next ≤ w'.next ∧ (w'.running → w'.Waits) := by
  have hkept : Kept (WaitsBelow w.next) (fun _ => True) w.next w := ⟨hw, le_rfl, trivial⟩
  have hleads : Leads (WaitsBelow w.next) (fun _ => True) w.next fun w' => w.next ≤ w'.next ∧ w'.Waits := by
    refine ⟨fun w' h => ⟨h.next, fun q s hq hs => (h.socks q s hq hs).trans_le h.next⟩,
      fun w' h => ⟨fun _ _ _ => trivial, h.1, trivial⟩, fun {α m} hm => ?_⟩
    refine .of_leaves hm.core fun w₁ w₂ hcore h => ?_
    have hheap : w₂.heap = w₁.heap := congrArg Core.heap hcore
    have hnext : w₂.next = w₁.next := congrArg Core.next hcore
    rw [World.Waits, hheap, hnext]
    exact h
  have U {m n : Ptr} : Upkeep (Kept (WaitsBelow m) (fun _ => True) n) (WaitsBelow m) fun _ => True :=
    waitsBelow_lasting.upkeep
  have F {m n : Ptr} (p : Ptr) (_ : True) : CanLoose (Kept (WaitsBelow m) (fun _ => True) n) (WaitsBelow m)
      (fun _ => True) (Left (fun _ => True) n) p := waitsBelow_lasting.canLoose p
  have hstate {m : Ptr} : OfState (WaitsBelow m) := fun hs he h => hs (he ▸ h)
  refine (M.kept_step waitsBelow_lasting hleads h hkept (M.allows_of waitsBelow_lasting hstate
    (fun _ _ _ _ h => nomatch h) fun i buf len _ => ?_)).imp Kept.next fun h hrunning => (h hrunning).2
  have hlisten : Listens (Kept (WaitsBelow w.next) (fun _ => True) w.next)
      (fun w' => w.next ≤ w'.next ∧ w'.Waits) w.next := by
    intro i frame s params w₁ hw₁ hn
    have hborn : BornGood (WaitsBelow (w.next + 1)) w₁.next := fun _ _ _ _ _ _ _ _ => hn ▸ Nat.lt_succ_self _
    have hmade (w' : World) (h : Kept (WaitsBelow w.next) (fun _ => True) w.next w') (hnext : w'.next = w₁.next + 1) :
        Kept (WaitsBelow (w.next + 1)) (fun _ => True) (w.next + 1) w' :=
      ⟨fun q s hq hs => (h.socks q s hq hs).trans (Nat.lt_succ_self _), by rw [hnext, hn], trivial⟩
    refine (M.keeps_xidListen U U F hmade hborn hw₁).post ?_
    rintro _ w' (h | h)
    · exact hleads.kept w' h
    · exact ⟨Nat.le_of_succ_le h.next, fun q s hq hs => (h.socks q s hq hs).trans_le h.next⟩
  have hkept : Kept (WaitsBelow w.next) (fun _ => True) w.next { w with sys := inp.sys } :=
    ⟨hw, le_rfl, trivial⟩
  exact M.keeps_handleFrame U F hleads.kept hlisten (fun _ _ => trivial) (fun _ _ _ => hstate.acksWell)
    (fun _ _ _ _ _ _ _ => M.kept_notifyAccept) hkept

/-- In a run, who waits to be accepted is below the next socket. -/
theorem waits_run {c : Config} {w : World} {C : World → Input → Prop} (h : Run World.Step C (.start c) w) :
    w.running → w.Waits := by
  refine h.invariant (I := fun w => w.running → w.Waits) (fun w inp w' hw _ hstep => ?_)
    fun _ q s hq => nomatch hq
  exact (waits_step hstep (hw (World.step_iff.mp hstep).1)).2

/-- A socket that was made and does not wait to be accepted never waits again. -/
theorem accepted_step {w w' : World} {inp : Input} {p n : Ptr} (hp : p < n) (h : w.Step inp w')
    (hw : Kept (Accepted p) (fun _ => True) n w) : w'.running → Kept (Accepted p) (fun _ => True) n w' := by
  have L := accepted_lasting hp
  have U : Upkeep (Kept (Accepted p) (fun _ => True) n) (Accepted p) fun _ => True := L.upkeep
  have hstate : OfState (Accepted p) := fun hs he hq h => hs hq (he ▸ h)
  have hw₀ : Kept (Accepted p) (fun _ => True) n { w with sys := inp.sys } := ⟨hw.socks, hw.next, hw.accepts⟩
  refine (M.kept_step L .refl h hw (M.allows_of L hstate (fun _ _ _ _ _ h => nomatch h)
    fun i buf len _ => ?_)).2
  have hlisten : Listens (Kept (Accepted p) (fun _ => True) n) (Kept (Accepted p) (fun _ => True) n) w.next :=
    M.listens_of_born U (fun q _ => L.canLoose q) fun _ _ _ _ _ _ _ he =>
      absurd (he ▸ hw.next) hp.not_ge
  exact M.keeps_handleFrame U (fun q _ => L.canLoose q) (fun _ h => h) hlisten (fun _ _ => trivial)
    (fun _ _ _ => hstate.acksWell) (fun _ _ _ _ _ _ _ => M.kept_notifyAccept) hw₀

/-! ## No second socket -/

namespace M

variable {α : Type} {p : Ptr} {s : Sock} {w : World}

/-- `m` makes no socket. -/
abbrev Barren (m : M α) : Prop := Leaves World.next m

theorem Quiet.barren {m : M α} (h : Quiet m) : Barren m := h.core.comp (g := Core.next)

theorem Still.barren {m : M α} (h : Still m) : Barren m := h.comp (g := fun x => x.2.1)

theorem barren_store : Barren (store p s) := .modify fun _ => rfl

theorem barren_sockDestroy : Barren (sockDestroy p) :=
  quiet_deref.barren.bind fun _ => quiet_leavePromisc.barren.bind fun _ => still_closePty.barren.bind fun _ =>
    Leaves.bind quiet_deref.barren fun _ => .modify fun _ => rfl

theorem barren_sabmAccept {i c : Nat} {frame : Frame} {l : Sock} {created : Bool} :
    Barren (sabmAccept i frame l c p created) := by
  have hdestroy : Barren (do
      sockDestroy p
      pure (-1) : M Int) := barren_sockDestroy.bind fun _ => .pure
  have hnotify {a b : Nat} {peer : Addr} {path : Bytes} : Barren (notifyAccept a b peer path) :=
    tame_notifyAccept.core.comp (g := Core.next)
  have hsave : Barren (if created then sockSave c p else pure true : M Bool) :=
    .ite still_sockSave.barren .pure
  exact quiet_deref.barren.bind fun _ => quiet_initBufs.barren.bind fun _ => barren_store.bind fun _ =>
    .ite (quiet_sockBindIf.barren.bind fun _ => barren_store.bind fun _ => hsave.bind fun _ => .ite
      (quiet_fdWatch.barren.bind fun _ => hnotify.bind fun _ => .ite
        (barren_store.bind fun _ => quiet_replyUa.barren) hdestroy) hdestroy) hdestroy

theorem barren_xidResponse {params : Params} : Barren (xidResponse p s params) := by
  unfold xidResponse
  rcases s.paramsNegotiate params with ⟨_ | e, s, params⟩
  · exact quiet_sendSabm.barren.bind fun _ => barren_store.bind fun _ => .pure
  · refine quiet_setErrno.barren.bind fun _ => barren_store.bind fun _ => Leaves.gets.bind fun c => ?_
    cases c with
    | none => exact .pure
    | some c =>
      exact barren_store.bind fun _ => Leaves.lift.bind fun _ => barren_store.bind fun _ =>
        Leaves.get.bind fun _ => quiet_respond.barren

/-- `m` makes no socket from `w`. -/
abbrev NoneMade (w : World) (m : M α) : Prop := wp m (fun _ w' => w'.next = w.next) (fun _ => True) w

theorem Barren.noneMade {m : M α} (h : Barren m) : NoneMade w m := h.wp (fun _ _ h => h) fun _ => trivial

variable {i : Nat} {frame : Frame} (hpair : (w.socksRemote.lookup (hashAddrpair frame.dest frame.src)).isSome)
include hpair

theorem handleSabm_noneMade : NoneMade w (handleSabm i frame) := by
  obtain ⟨p, hp⟩ := Option.isSome_iff_exists.mp hpair
  rw [NoneMade, handleSabm, wp_bind, wp_sockByAddr]
  split
  · exact quiet_replyDm.barren.noneMade
  rw [wp_bind, wp_deref]
  refine ⟨fun listener _ => ?_, fun _ => trivial⟩
  rw [wp_ite]
  refine ⟨fun _ => quiet_replyDm.barren.noneMade, fun _ => ?_⟩
  rw [wp_bind, wp_clientBySock]
  split
  · rfl
  rw [wp_bind, wp_sockByAddrpair, hp]
  refine Barren.noneMade (quiet_deref.barren.bind fun s => ?_)
  cases s.state with
  | pendingAccept => exact barren_sabmAccept
  | established =>
    exact Leaves.lift.bind fun _ => barren_store.bind fun _ => .ite quiet_replyUa.barren .pure
  | _ => exact quiet_replyDm.barren

theorem handleXid_noneMade {buf : Mem} {offset len : Nat} : NoneMade w (handleXid i frame buf offset len) := by
  obtain ⟨p, hp⟩ := Option.isSome_iff_exists.mp hpair
  rw [NoneMade, handleXid, wp_bind]
  refine wp_intro fun iface w₁ h₁ => ?_
  have hcore₁ := quiet_getIface.core _ _ _ h₁
  rw [wp_ite]
  refine ⟨fun _ => congrArg Core.next hcore₁, fun _ => ?_⟩
  rw [wp_bind]
  refine wp_intro fun m w₂ h₂ => ?_
  have hcore₂ := (quiet_junk.core _ _ _ h₂).trans hcore₁
  cases decodeXid (.ofMem m) buf offset len with
  | none => exact congrArg Core.next hcore₂
  | some params =>
    have hp₂ : w₂.socksRemote.lookup (hashAddrpair frame.dest frame.src) = some p := by
      rw [show w₂.socksRemote = w.socksRemote from congrArg Core.socksRemote hcore₂]
      exact hp
    dsimp only
    rw [wp_bind, wp_setErrno, wp_bind, wp_sockByAddrpair]
    dsimp only
    rw [hp₂, ← show w₂.next = w.next from congrArg Core.next hcore₂]
    dsimp only
    have hanswer : Barren (do
        let remote ← deref p
        if remote.state ≠ .pendingConnect then replyDm i frame PATTY_AX25_FRAME_FINAL
        else xidResponse p remote params : M Int) :=
      quiet_deref.barren.bind fun _ => .ite quiet_replyDm.barren barren_xidResponse
    exact hanswer.noneMade (w := { w₂ with errno := .zero })

end M

/-- No XID, SABM or SABME makes a socket for a pair of addresses that has one. -/
theorem noneMade_step {w w' : World} {inp : Input} {i len : Nat} {buf : Mem} {f : Frame} (h : w.Step inp w')
    (hframe : inp.event = .frame i buf len) (hf : f ∈ w.frameOf buf len)
    (htype : f.type = .xid ∨ f.type = .sabm ∨ f.type = .sabme) (hpair : (w.frameSock buf len).isSome) :
    w'.next = w.next := by
  obtain ⟨-, r, w₁, hrun, rfl⟩ := M.step_handles h
  have hframe' : M.NoneMade { w with sys := inp.sys } (M.handleFrame i buf len) := by
    refine M.wp_handleFrame (M.quiet_ifDrop.barren.noneMade) fun f' hf' offset hlook => ?_
    obtain rfl : f' = f := Option.mem_unique hf' hf
    rw [← show World.frameSock { w with sys := inp.sys } buf len = w.frameSock buf len from rfl, ← hlook] at hpair
    unfold M.handleType
    rcases htype with htype | htype | htype <;> rw [htype]
    · exact M.handleXid_noneMade (w := { w with sys := inp.sys, errno := .zero }) hpair
    · exact M.handleSabm_noneMade (w := { w with sys := inp.sys, errno := .zero }) hpair
    · exact M.handleSabm_noneMade (w := { w with sys := inp.sys, errno := .zero }) hpair
  have hw₁ : w₁.next = w.next := by
    refine (show M.NoneMade { w with sys := inp.sys } (M.handleEvent inp.event) from ?_).ok hrun
    rw [hframe, M.NoneMade, M.handleEvent, wp_bind, wp_get]
    split
    · rfl
    · rw [wp_ite]
      refine ⟨fun _ => rfl, fun _ => ?_⟩
      rw [wp_bind]
      refine hframe'.post fun r w₂ hw₂ => ?_
      have hresult : M.Barren (M.frameResult i r) := Leaves.get.bind fun _ => .ite
        (M.quiet_getIface.barren.bind fun _ => M.quiet_setIface.barren.bind fun _ =>
          M.quiet_fdClear.barren.bind fun _ => .pure) .pure
      rw [← hw₂]
      exact hresult.noneMade
  split_ifs
  · exact hw₁
  · exact hw₁

/-! ## Any run -/

/-- Where the socket `p` was made and does not wait to be accepted, it is not announced any more. -/
theorem Accepted.not_announces {w w' : World} {p n : Ptr} (hp : p < n)
    (hw : Kept (Accepted p) (fun _ => True) n w) : ¬Announces w w' p := by
  rintro ⟨q, listener, s', -, -, -, -, -, ⟨hle, -⟩ | ⟨s, hs, hstate, -⟩⟩
  · exact absurd (hp.trans_le hw.next) hle.not_gt
  · exact hw.socks p s hs rfl hstate

/-- The socket that is announced does not wait to be accepted any more. -/
theorem Announces.accepted {w w' : World} {p : Ptr} (h : Announces w w' p) (hw : w.Waits)
    (hnext : w.next ≤ w'.next) : p < w'.next ∧ Kept (Accepted p) (fun _ => True) w'.next w' := by
  obtain ⟨q, listener, s', -, -, -, hp, hstate, hmade⟩ := h
  refine ⟨?_, fun q s hq he hs => ?_, le_rfl, trivial⟩
  · rcases hmade with ⟨-, hlt⟩ | ⟨s, hs, hpending, -⟩
    · exact hlt
    · exact (hw p s hs hpending).trans_le hnext
  · subst he
    obtain rfl := Option.some.inj (hq.symm.trans hp)
    exact nomatch hs.symm.trans hstate

/-- In a run of the server, an accept message is only written in the step in which its socket, which waited to
be accepted or is made there, is established; the socket is not announced again in what follows; and no XID,
SABM or SABME makes a socket for a pair of addresses that has one. -/
theorem announced_once {c : Config} {w₁ w₂ : World} {inp : Input}
    (h : Run World.Step (fun _ _ => True) (.start c) w₁) (hs : w₁.Step inp w₂) :
    (w₂.accepts = w₁.accepts ∨ ∃ p, Announces w₁ w₂ p) ∧
    (∀ p, Announces w₁ w₂ p → ∀ w₃ inp' w₄, Run World.Step (fun _ _ => True) w₂ w₃ → w₃.Step inp' w₄ →
      ¬Announces w₃ w₄ p) ∧
    (∀ i buf len f, inp.event = .frame i buf len → f ∈ w₁.frameOf buf len →
      f.type = .xid ∨ f.type = .sabm ∨ f.type = .sabme → (w₁.frameSock buf len).isSome →
      w₂.next = w₁.next) := by
  have hwaits : w₁.Waits := waits_run h (World.step_iff.mp hs).1
  refine ⟨announces_step hs, fun p hp w₃ inp' w₄ hrun hs' => ?_, fun _ _ _ _ => noneMade_step hs⟩
  obtain ⟨hlt, hkept⟩ := hp.accepted hwaits (waits_step hs hwaits).1
  have hkept₃ := hrun.invariant (I := fun w => w.running → Kept (Accepted p) (fun _ => True) w₂.next w)
    (fun w inp w' hw _ hstep => accepted_step hlt hstep (hw (World.step_iff.mp hstep).1)) fun _ => hkept
  exact Accepted.not_announces hlt (hkept₃ (World.step_iff.mp hs').1)

/-- The accept message of the connection that is accepted is its only one. -/
theorem announced_once_first : ∃ w₁ w₂ p, Run World.Step (fun _ _ => True) (.start oneInterface) w₁ ∧
    Announces w₁ w₂ p ∧ ∀ w₃ inp w₄, Run World.Step (fun _ _ => True) w₂ w₃ → w₃.Step inp w₄ →
      ¬Announces w₃ w₄ p := by
  have hsome : ((World.start oneInterface).execAll (acceptInputs.take 7 ++ acceptInputs.drop 7)).isSome := by
    decide +kernel
  have hstep := World.step_after (acceptInputs.take 7) hsome
  obtain ⟨w, hw⟩ := Option.isSome_iff_exists.mp
    (show ((World.start oneInterface).execAll (acceptInputs.take 7)).isSome by decide +kernel)
  have hrun : Run World.Step (fun _ _ => True) (.start oneInterface)
      ((World.start oneInterface).after (acceptInputs.take 7)) := by
    rw [World.after, hw]
    exact World.run_execAll hw
  obtain ⟨hone, honce, -⟩ := announced_once hrun hstep
  obtain ⟨p, hp⟩ := hone.resolve_left (by decide +kernel)
  exact ⟨_, _, p, hrun, hp, honce p hp⟩

end Patty
