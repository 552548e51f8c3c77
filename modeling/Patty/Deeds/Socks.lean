import Patty.Deeds
import Patty.Isolation
import Patty.Upkeep.Socks

/-! # The deeds of the turn of a socket

Making a socket opens a descriptor, which is lost where there is no memory for its buffers; destroying one closes
it. The turn of a socket does nothing else. -/

namespace Patty

open Prog

namespace M

variable {α : Type} {p : Ptr} {s s' : Sock} {client fd : Nat} {w w' : World}

/-! ## Making and destroying -/

theorem goods_unseen : Unseen World.goods fun _ => False where
  errno _ _ := rfl
  sys _ _ := rfl
  log _ _ h := h.elim
  stats _ _ _ := rfl

theorem goods_initBufs : Leaves World.goods (initBufs s) :=
  goods_unseen.alloc.bind fun _ => .ite (goods_unseen.alloc.bind fun _ => .ite (goods_unseen.alloc.bind fun _ =>
    .ite (goods_unseen.junk.bind fun _ => Leaves.lift.bind fun _ => .pure) .pure) .pure) .pure

theorem older_of_outer (h : Relation.ReflTransGen World.Outer w w') : w.Older w' := by
  induction h with
  | refl => exact .rfl
  | tail _ hstep ih => exact ih.trans hstep.1

theorem Outer.older {m : M α} (h : Outer m) : wp m (fun _ w' => w.Older w') (fun _ => True) w :=
  wp_intro fun a w' hm => older_of_outer (h w a w' trivial hm)

/-- Memory is short where the buffers of a socket are not made. -/
theorem initBufs_short : wp (initBufs s) (fun r _ => r.1 = false → false ∈ w.sys.alloc) (fun _ => True) w := by
  have hnext {w₁ : World} {k : Bool → M (Bool × Sock)} (h₁ : w.Older w₁)
      (hfalse : ∀ w₂, wp (k false) (fun r _ => r.1 = false) (fun _ => True) w₂)
      (hk : ∀ w₂, w.Older w₂ → wp (k true) (fun r _ => r.1 = false → false ∈ w.sys.alloc) (fun _ => True) w₂) :
      wp (alloc >>= k) (fun r _ => r.1 = false → false ∈ w.sys.alloc) (fun _ => True) w₁ := by
    rw [wp_bind]
    refine (alloc_short.and outer_alloc.older).post fun ok w₂ ⟨hshort, h₂⟩ => ?_
    cases ok with
    | true => exact hk w₂ (h₁.trans h₂)
    | false => exact (hfalse w₂).post fun r w₃ _ _ => h₁.alloc.subset (hshort rfl)
  refine hnext .rfl (fun _ => rfl) fun w₁ h₁ => hnext h₁ (fun _ => rfl) fun w₂ h₂ =>
    hnext h₂ (fun _ => rfl) fun w₃ h₃ => ?_
  rw [if_pos rfl, wp_bind]
  refine wp_intro fun m w₄ _ => ?_
  rw [wp_bind, wp_lift]
  refine ⟨fun s' _ h => ?_, fun _ _ => trivial⟩
  cases h

/-- The descriptor has been opened, and nothing else has been done. -/
structure Opened (fd : Nat) (w₀ w : World) : Prop where
  older : w₀.Older w
  fresh : fd ∉ w₀.fds
  goods : w.goods = { w₀.goods with fds := fd :: w₀.fds }

theorem Opened.leaves {m : M α} (h : Opened fd w w') (hm : Outer m) (hl : Leaves World.goods m) :
    wp m (fun _ w'' => Opened fd w w'') (fun _ => True) w' :=
  (hm.older.and (hl.wp (fun _ _ h => h) fun _ => trivial)).post fun _ _ h₁ =>
    ⟨h.older.trans h₁.1, h.fresh, h₁.2.trans h.goods⟩

theorem openpty_opened : wp openpty (fun a w' => match a with
    | none => w.Outer w'
    | some x => Opened x.1 w w') (fun _ => True) w := by
  have hanswer {ok : Option (Nat × Bytes)} : Outer (answer (·.pty) (fun sys l => { sys with pty := l }) ok) :=
    outer_answer_other fun _ _ => rfl
  rw [openpty, wp_bind]
  refine (hanswer.older.and (goods_unseen.answer.wp (fun _ _ h => h) fun _ => trivial)).post ?_
  rintro a w₁ ⟨hold, hgoods⟩
  cases a with
  | none => exact ⟨hold, .inl hgoods⟩
  | some a =>
    have hfds : w₁.fds = w.fds := congrArg Goods.fds hgoods
    refine ⟨hold.trans (.of_eq rfl rfl), ?_, ?_⟩
    · rw [← hfds]
      exact freshFd_not_mem w₁.fds a.1
    · rw [← hfds, ← hgoods]
      rfl

theorem Opened.newSock {w₀ : World} (h : Opened s.fd w₀ w) :
    wp (some <$> newSock s) (fun _ w' => w₀.Deed w') (fun _ => True) w := by
  rw [wp_map, wp_newSock]
  refine ⟨h.older.trans (.of_eq rfl rfl), ?_⟩
  have hmake : w₀.goods.Deed (false ∈ w₀.sys.alloc) _ := .make h.fresh
  have hgoods := h.goods
  rw [World.goods, Goods.mk.injEq] at hgoods
  obtain ⟨hheap, hnext, hfds, hclients, hlog⟩ := hgoods
  rw [World.goods, World.setSock]
  dsimp only
  rw [hheap, hnext, hfds, hclients, hlog]
  exact hmake

theorem Opened.closeFd {w₀ : World} (h : Opened fd w₀ w) : wp (do
    M.closeFd fd
    pure none : M (Option Ptr)) (fun _ w' => w₀.Deed w') (fun _ => True) w := by
  rw [wp_bind, M.closeFd, wp_modify]
  refine ⟨h.older.trans (.of_eq rfl rfl), ?_⟩
  have hgoods := h.goods
  rw [World.goods, Goods.mk.injEq] at hgoods
  obtain ⟨hheap, hnext, hfds, hclients, hlog⟩ := hgoods
  rw [World.goods, hheap, hnext, hfds, hclients, hlog, List.erase_cons_head]
  exact .rest

theorem does_sockNew {proto : Nat} {type : SockType} : Does (sockNew proto type) := by
  refine outer_alloc.does.bind fun ok => .ite ?_ .pure
  apply Walks.one_wp
  intro w₀ _
  rw [wp_bind]
  refine openpty_opened.post fun a w₁ h₁ => ?_
  cases a with
  | none => exact World.Outer.deed h₁
  | some a =>
    have hinit {s₀ : Sock} (hs₀ : s₀.fd = a.1) : wp
        (initBufs s₀ >>= fun r => if r.1 then some <$> newSock r.2 else pure none : M (Option Ptr))
        (fun _ w' => w₀.Deed w') (fun _ => True) w₁ := by
      rw [wp_bind]
      refine ((initBufs_place.and (Opened.leaves h₁ outer_initBufs goods_initBufs)).and initBufs_short).post ?_
      rintro ⟨ok, s⟩ w₂ ⟨⟨hplace, h₂⟩, hshort⟩
      have hfd : s.fd = a.1 := (congrArg Place.fd hplace).trans hs₀
      dsimp only
      rw [wp_ite]
      constructor
      · intro _
        rw [← hfd] at h₂
        exact h₂.newSock
      · intro hok
        refine ⟨h₂.older, ?_⟩
        rw [h₂.goods]
        exact .lose (h₁.older.alloc.subset (hshort (Bool.eq_false_of_not_eq_true hok))) h₂.fresh
    cases type with
    | dgram => exact Opened.newSock h₁
    | raw =>
      refine wp_bind.mpr ((Opened.leaves h₁ outer_alloc goods_unseen.alloc).post fun ok₁ w₂ h₂ => ?_)
      rw [wp_ite]
      refine ⟨fun _ => ?_, fun _ => h₂.closeFd⟩
      refine wp_bind.mpr ((h₂.leaves outer_alloc goods_unseen.alloc).post fun ok₂ w₃ h₃ => ?_)
      rw [wp_ite]
      refine ⟨fun _ => ?_, fun _ => h₃.closeFd⟩
      refine wp_bind.mpr ((h₃.leaves outer_junk goods_unseen.junk).post fun m w₄ h₄ => ?_)
      exact Opened.newSock h₄
    | stream => exact hinit rfl
    | other n => exact hinit rfl

/-- Closing the descriptor of a socket and freeing it are one deed. -/
theorem doesAt_release : DoesAt p s (do
    closePty s
    freeSock p) := by
  apply Walks.one_wp
  intro w hp
  have hclose : wp (closePty s) (fun _ w₁ => w₁ = { w with fds := if 0 < s.fd then w.fds.erase s.fd else w.fds })
      (fun _ => True) w := by
    rw [closePty, wp_ite]
    constructor
    · intro hpos
      rw [closeFd, wp_modify, if_pos hpos]
    · intro hpos
      rw [wp_pure, if_neg hpos]
  rw [wp_bind]
  refine hclose.post fun _ w₁ h₁ => ?_
  rw [wp_freeSock, h₁]
  exact ⟨fun _ _ => ⟨.of_eq rfl rfl, .destroy hp⟩, fun _ => trivial⟩

theorem does_sockDestroy : Does (sockDestroy p) :=
  does_deref fun _ => doesAt_outer outer_leavePromisc fun _ => doesAt_release

theorem does_sockCloseFd {socks : Dict Nat Ptr} : Does (sockCloseFd client socks p s) :=
  .ite (Walks.bind (outer_modify (by intro; rfl)).does fun _ => Walks.get.bind fun _ => .ite
    (Walks.bind (outer_modify (by intro; rfl)).does fun _ => outer_fdClear.does.bind fun _ =>
      does_sockDestroy.bind fun _ => .pure) .pure) .pure

theorem does_sockClose : Does (sockClose p) := by
  refine outer_deref.does.bind fun s => outer_deleteByState.does.bind fun _ =>
    .ite (Walks.gets.bind fun c => ?_) .pure
  cases c with
  | none => exact .pure
  | some c =>
    refine Walks.get.bind fun w => ?_
    cases w.socksByClient.lookup c with
    | none => exact .pure
    | some socks => exact does_sockCloseFd

theorem does_sockShutdown : Does (sockShutdown p) :=
  does_deref fun _ => doesAt_outer outer_fdClear fun _ => .ite .pure
    (doesAt_store ⟨rfl, rfl⟩ outer_sendDisc.does.anywhere)

theorem does_sockFlowStop : Does (sockFlowStop p) :=
  does_deref fun _ => doesAt_outer outer_fdClear fun _ => does_store ⟨rfl, rfl⟩

theorem does_sockFlowStart : Does (sockFlowStart p) := outer_deref.does.bind fun _ => outer_fdWatch.does

theorem does_ignore {m : M α} {β : Type} {b : β} (h : Does m) : Does (do
    let _ ← m
    pure b) := h.bind fun _ => .pure

/-! ## Turns -/

variable {ready : Bool} {inp : Except Errno Bytes} {elapsed : Timespec}

theorem Differs.same (h : s.Differs s') : s.Same s' := by
  obtain ⟨slots, vs, rfl⟩ := h
  exact ⟨rfl, rfl⟩

theorem sockWriteBytes_same {bs : Bytes} :
    wp (sockWriteBytes s bs) (fun r _ => s.Same r.2) (fun _ => True) w :=
  sockWrite_differs.post fun _ _ h => Differs.same h

theorem sockResendPending_same : wp (sockResendPending s) (fun r _ => s.Same r.2) (fun _ => True) w := by
  refine sockResendPending_vs.post fun r w' h => ?_
  obtain ⟨vs, h⟩ := h
  rw [h]
  exact ⟨rfl, rfl⟩

theorem does_handleSockDgram : Does (handleSockDgram p ready inp) := by
  refine does_deref fun s => doesAt_outer Walks.gets fun _ => .ite .pure (doesAt_outer outer_readPty fun r => ?_)
  split
  · exact (does_ignore does_sockClose).anywhere
  · exact (does_ignore does_sockClose).anywhere
  · exact .pure
  · exact doesAt_outer_of outer_sockWrite (fun _ => sockWriteBytes_same) fun r hr =>
      doesAt_store hr (.ite (does_ignore does_sockClose).anywhere .pure)

theorem does_sendRaw {i fuel : Nat} : Does (sendRaw p i fuel) := by
  induction fuel with
  | zero => exact .pure
  | succ fuel ih =>
    refine does_deref fun s => ?_
    cases s.raw with
    | none => exact .pure
    | some tnc =>
      exact doesAt_outer outer_getIface fun _ => doesAt_outer Walks.lift fun _ =>
        doesAt_outer (outer_setIface (by intro; rfl)) fun _ =>
        doesAt_store ⟨rfl, rfl⟩ (.ite .pure (.ite .pure (doesAt_store ⟨rfl, rfl⟩
          (outer_ifSend.does.bind fun _ => .ite .pure ih).anywhere)))

theorem does_handleSockRaw : Does (handleSockRaw p ready inp) := by
  refine does_deref fun s => doesAt_outer Walks.gets fun _ => .ite .pure ?_
  split
  · split
    · exact doesAt_outer outer_setErrno fun _ => .pure
    · exact (does_ignore does_sockClose).anywhere
    · exact doesAt_store ⟨rfl, rfl⟩ does_sendRaw.anywhere
  · exact .pure

theorem does_sockRead : Does (sockRead p inp) := by
  refine does_deref fun s => doesAt_outer outer_readPty fun r => ?_
  split
  · exact (does_ignore does_sockShutdown).anywhere
  · exact (does_ignore does_sockShutdown).anywhere
  · exact .pure
  · exact doesAt_outer_of outer_sockWrite (fun _ => sockWriteBytes_same) fun r hr => doesAt_store hr
      (.ite (does_ignore does_sockClose).anywhere (doesAt_store ⟨rfl, rfl⟩ .pure))

theorem does_flowCheck : DoesAt p s (flowCheck p s) :=
  doesAt_store ⟨rfl, rfl⟩ (.ite does_sockFlowStop.anywhere .pure)

theorem does_sockSend : Does (sockSend p ready inp) :=
  does_deref fun _ => doesAt_outer Walks.gets fun _ => .ite .pure (does_flowCheck.bind fun _ => does_deref fun _ =>
    doesAt_outer_of outer_sockResendPending (fun _ => sockResendPending_same) fun _ hr => doesAt_store hr
      (.ite .pure (.ite (doesAt_store ⟨rfl, rfl⟩ .pure) does_sockRead.anywhere)))

theorem retries_same {n : Nat} : s.Same { s with retries := n } := ⟨rfl, rfl⟩

theorem retriesDecr_same : s.Same s.retriesDecr := retries_same

theorem retry_same : s.Same (retry s) := retries_same (s := { s with timerT1 := s.timerT1.start })

theorem does_handleSockPendingAccept : DoesAt p s (handleSockPendingAccept p s) :=
  .ite (.ite (doesAt_store retry_same outer_sendXid.does.anywhere)
    (doesAt_store retriesDecr_same (does_ignore does_sockClose).anywhere)) .pure

theorem does_handleSockPendingConnect : DoesAt p s (handleSockPendingConnect p s) := by
  refine .ite (.ite (doesAt_store retry_same outer_sendSabm.does.anywhere) (doesAt_store retriesDecr_same ?_)) .pure
  refine doesAt_outer Walks.gets fun c => ?_
  cases c with
  | none => exact .pure
  | some c =>
    exact (does_sockShutdown.bind fun _ => does_sockClose.bind fun _ => outer_respondConnect.does).anywhere

theorem does_handleSockT1 : DoesAt p s (handleSockT1 p s) :=
  .ite (doesAt_outer_of outer_sockResendPending (fun _ => sockResendPending_same) fun _ hr =>
      doesAt_store (retry_same.trans hr) (.ite .pure (outer_sendRr.does.bind fun _ => .pure).anywhere))
    (doesAt_store retriesDecr_same (does_sockShutdown.bind fun _ => does_sockClose).anywhere)

theorem does_handleSockEstablished : DoesAt p s (handleSockEstablished p s ready inp) := by
  refine .ite does_handleSockT1 ?_
  dsimp only
  split <;> exact .ite (doesAt_store ⟨rfl, rfl⟩ outer_sendRr.does.anywhere)
    (.ite (doesAt_store ⟨rfl, rfl⟩ outer_sendRr.does.anywhere) (doesAt_store ⟨rfl, rfl⟩ does_sockSend.anywhere))

theorem does_handleSockPendingDisconnect : DoesAt p s (handleSockPendingDisconnect p s ready inp) :=
  .ite (.ite (doesAt_store retry_same outer_sendDisc.does.anywhere)
    (doesAt_store retriesDecr_same does_sockClose.anywhere)) does_sockSend.anywhere

theorem does_handleSock : Does (handleSock p elapsed ready inp) := by
  refine does_deref fun s => ?_
  split
  · exact does_handleSockDgram.anywhere
  · exact does_handleSockRaw.anywhere
  · refine doesAt_store ⟨rfl, rfl⟩ ?_
    split
    · exact does_handleSockPendingAccept
    · exact does_handleSockPendingConnect
    · exact does_handleSockEstablished
    · exact does_handleSockPendingDisconnect
    · exact does_sockSend.anywhere

end M

end Patty
