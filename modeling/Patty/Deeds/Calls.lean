import Patty.Deeds.Frames

/-! # The deeds of the calls of the clients

A call other than `connect` is answered at its end, or fails and ends the run (`Answers`). What a whole event comes
to is said by `handleEvent_deeds`. -/

namespace Patty

open Prog Relation

/-- The server did deeds, and then answered the call `n` of the client. -/
def World.Answered (client n : Nat) (w w' : World) : Prop := ∃ w₁ r, ReflTransGen World.Deed w w₁ ∧
  r.call = n ∧ w₁.Older w' ∧ w'.goods = { w₁.goods with log := w₁.log ++ [.respond client r] }

namespace M

variable {α : Type} {p : Ptr} {s s' : Sock} {client n : Nat} {m : Mem} {C : World → Prop} {w₀ w w' : World}

/-- Started where `C` holds, the call `n` of the client is answered by `m`, or it fails. -/
def Answers (client n : Nat) (C : World → Prop) (m : M Int) : Prop :=
  ∀ w r w', C w → m w = .ok (r, w') → r < 0 ∧ ReflTransGen World.Deed w w' ∨ w.Answered client n w'

theorem Answered.of_deeds {r : Int} (h : ReflTransGen World.Deed w₀ w)
    (ha : r < 0 ∧ ReflTransGen World.Deed w w' ∨ w.Answered client n w') :
    r < 0 ∧ ReflTransGen World.Deed w₀ w' ∨ w₀.Answered client n w' := by
  rcases ha with ⟨hr, hw⟩ | ⟨w₁, a, hw, ha⟩
  · exact .inl ⟨hr, h.trans hw⟩
  · exact .inr ⟨w₁, a, h.trans hw, ha⟩

/-! ## Rules -/

theorem answers_does {m : M α} {g : α → M Int} (hm : Walks World.Deed C m)
    (hg : ∀ a, Answers client n (fun _ => True) (g a)) : Answers client n C (m >>= g) := by
  intro w r w' hC h
  obtain ⟨a, w₁, h₁, h₂⟩ := bind_eq_ok.mp h
  exact Answered.of_deeds (hm w a w₁ hC h₁) (hg a w₁ r w' trivial h₂)

theorem answers_ite {c : Prop} [Decidable c] {m m' : M Int} (h : Answers client n C m)
    (h' : Answers client n C m') : Answers client n C (if c then m else m') := by
  split
  · exact h
  · exact h'

theorem answers_fail : Answers client n C (pure (-1)) := by
  intro w r w' _ h
  cases h
  exact .inl ⟨by decide, .refl⟩

theorem answers_respond {r : Response} (hr : r.call = n) : Answers client n C (respond client r) := by
  intro w a w' _ h
  obtain ⟨e, w₁, h₁, h₂⟩ := bind_eq_ok.mp h
  have hanswer : Outer (answer (·.clientWrite) (fun sys l => { sys with clientWrite := l }) none) :=
    outer_answer_other fun _ _ => rfl
  cases e with
  | none =>
    cases h₂
    exact .inr ⟨w₁, r, hanswer.does w _ w₁ trivial h₁, hr, .of_eq rfl rfl, rfl⟩
  | some e =>
    cases h₂
    exact .inl ⟨by decide, (hanswer.does w _ w₁ trivial h₁).trans (outer_setErrno.does w₁ _ _ trivial rfl)⟩

theorem answers_deref {g : Sock → M Int} (hg : ∀ s, Answers client n (fun w => w.heap p = some s) (g s)) :
    Answers client n C (deref p >>= g) := by
  intro w r w' _ h
  obtain ⟨s, w₁, h₁, h₂⟩ := bind_eq_ok.mp h
  have hp : w.heap p = some s ∧ w₁ = w := by
    have hwp : wp (deref p) (fun s w₁ => w.heap p = some s ∧ w₁ = w) (fun _ => True) w := by
      rw [wp_deref]
      exact ⟨fun s hp => ⟨hp, rfl⟩, fun _ => trivial⟩
    exact hwp.ok h₁
  obtain ⟨hp, rfl⟩ := hp
  exact hg s w₁ r w' hp h₂

/-- The rule for a call that goes on with what it knows of the socket. -/
theorem answers_outer {m : M α} {g : α → M Int} {P : α → Prop} (hm : Outer m)
    (hP : ∀ w, wp m (fun a _ => P a) (fun _ => True) w)
    (hg : ∀ a, P a → Answers client n (fun w => w.heap p = some s) (g a)) :
    Answers client n (fun w => w.heap p = some s) (m >>= g) := by
  intro w r w' hp h
  obtain ⟨a, w₁, h₁, h₂⟩ := bind_eq_ok.mp h
  have hp₁ : w₁.heap p = some s := (congrFun (hm.heap w a w₁ h₁) p).trans hp
  exact Answered.of_deeds (hm.does w a w₁ trivial h₁) (hg a ((hP w).ok h₁) w₁ r w' hp₁ h₂)

theorem answers_store {k : Unit → M Int} (hs : s.Same s')
    (hk : Answers client n (fun w => w.heap p = some s') (k ())) :
    Answers client n (fun w => w.heap p = some s) (store p s' >>= k) := by
  intro w r w' hp h
  have hp₁ : (w.setSock p s').heap p = some s' := Function.update_self ..
  exact Answered.of_deeds (does_store hs w () _ hp rfl) (hk (w.setSock p s') r w' hp₁ h)

/-! ## Calls -/

theorem answers_socketRequest : Answers client PATTY_CLIENT_SOCKET C (socketRequest client m) := by
  refine answers_does does_sockNew.anywhere fun r => ?_
  cases r with
  | none => exact answers_fail
  | some p =>
    exact answers_does outer_sockSave.does fun _ => answers_ite
      (answers_does outer_deref.does fun _ => answers_respond rfl)
      (answers_does does_sockDestroy fun _ => answers_fail)

theorem SetsockoptParams.apply_same (data : SetsockoptParams) : s.Same (data.apply s) := by
  have hset {c : Prop} [Decidable c] {s₁ s₂ : Sock} (h : s.Same s₁) (h' : s₁.Same s₂) :
      s.Same (if c then s₂ else s₁) := by
    split
    · exact h.trans h'
    · exact h
  unfold SetsockoptParams.apply
  exact hset (hset (hset (hset ⟨rfl, rfl⟩ ⟨rfl, rfl⟩) ⟨rfl, rfl⟩) ⟨rfl, rfl⟩) ⟨rfl, rfl⟩

theorem answers_paramsOption : Answers client PATTY_CLIENT_SETSOCKOPT C (paramsOption client p m) := by
  refine answers_deref fun s => answers_store (SetsockoptParams.apply_same _) (answers_ite
    (answers_outer outer_initBufs (fun _ => initBufs_place) ?_) (answers_respond rfl))
  rintro ⟨ok, s₁⟩ hplace
  exact answers_store (.of_place hplace) (answers_ite (answers_respond rfl) answers_fail)

theorem answers_ifOption :
    Answers client PATTY_CLIENT_SETSOCKOPT (fun w => w.heap p = some s) (ifOption client p s m) := by
  refine answers_outer (P := fun _ => True) Walks.get (fun _ => trivial) fun w _ => ?_
  cases ifGet w.ifaces (SetsockoptIf.ofMem m).name with
  | none => exact answers_respond rfl
  | some i =>
    refine answers_outer outer_sockBindIf (fun _ => sockBindIf_place) fun s₁ hplace => ?_
    have hsame : s.Same s₁ := by
      refine .trans ?_ (.of_place hplace)
      split
      · exact ⟨rfl, rfl⟩
      · exact ⟨rfl, rfl⟩
    exact answers_store hsame (answers_does outer_fdWatch.does.anywhere fun _ => answers_respond rfl)

/-- The value of an option is read, and the call goes on with what it knows of the socket. -/
theorem answers_withOption {len size : Nat} {call : Mem → M Int}
    (h : ∀ m, Answers client n (fun w => w.heap p = some s) (call m)) :
    Answers client n (fun w => w.heap p = some s) (withOption client len size call) := by
  refine answers_outer (P := fun _ => True) outer_readOption (fun _ => wp_trivial.post fun _ _ _ => trivial) ?_
  rintro (_ | m) _
  · exact answers_fail
  · exact h m

theorem answers_setsockoptRequest : Answers client PATTY_CLIENT_SETSOCKOPT C (setsockoptRequest client m) := by
  refine answers_does Walks.gets fun r => ?_
  cases r with
  | none => exact answers_respond rfl
  | some p =>
    have hparams {len : Nat} : Answers client PATTY_CLIENT_SETSOCKOPT (fun _ => True)
        (setsockoptParams client len p) := by
      refine answers_does outer_readOption.does ?_
      rintro (_ | m)
      · exact answers_fail
      · exact answers_paramsOption
    exact answers_ite hparams (answers_ite (answers_deref fun _ => answers_ite (answers_respond rfl)
      (answers_withOption fun _ => answers_ifOption)) (answers_respond rfl))

theorem answers_bindRequest : Answers client PATTY_CLIENT_BIND C (bindRequest client m) := by
  refine answers_does Walks.gets fun r => ?_
  cases r with
  | none => exact answers_respond rfl
  | some p =>
    refine answers_deref fun s => answers_ite (answers_respond rfl)
      (answers_outer (P := fun _ => True) Walks.gets (fun _ => trivial) ?_)
    rintro (_ | q) _
    · exact answers_store ⟨rfl, rfl⟩ (answers_respond rfl)
    · exact answers_respond rfl

theorem answers_listenRequest : Answers client PATTY_CLIENT_LISTEN C (listenRequest client m) := by
  refine answers_does Walks.gets fun r => ?_
  cases r with
  | none => exact answers_respond rfl
  | some p =>
    exact answers_deref fun _ => answers_ite (answers_does outer_junk.does.anywhere fun _ => answers_respond rfl)
      (answers_store ⟨rfl, rfl⟩ (answers_does outer_sockSaveLocal.does.anywhere fun _ =>
        answers_ite (answers_respond rfl) answers_fail))

theorem answers_acceptRequest : Answers client PATTY_CLIENT_ACCEPT C (acceptRequest client m) := by
  refine answers_does Walks.gets fun r => ?_
  cases r with
  | none => exact answers_respond rfl
  | some p =>
    exact answers_deref fun _ => answers_ite (answers_respond rfl)
      (answers_ite (answers_respond rfl) (answers_respond rfl))

theorem answers_closeRequest : Answers client PATTY_CLIENT_CLOSE C (closeRequest client m) := by
  refine answers_does Walks.gets fun r => ?_
  cases r with
  | none => exact answers_respond rfl
  | some p =>
    refine answers_does Walks.get fun w => ?_
    cases w.socksByClient.lookup client with
    | none => exact answers_respond rfl
    | some socks =>
      exact answers_does does_sockShutdown fun _ => answers_ite
        (answers_does Walks.get fun _ => answers_respond rfl)
        (answers_does does_sockClose fun _ => answers_ite (answers_respond rfl) (answers_respond rfl))

/-! ## `connect` -/

theorem does_connectStart : DoesAt p s (connectStart client p s) := by
  unfold connectStart
  split
  · exact doesAt_store ⟨rfl, rfl⟩ .pure
  · exact doesAt_store ⟨rfl, rfl⟩ (doesAt_outer outer_sendXid fun _ => .ite
      (doesAt_outer Walks.get fun _ => outer_respondConnect.does.anywhere) (doesAt_store ⟨rfl, rfl⟩ .pure))
  · exact .pure

theorem does_connectVia {i : Nat} {peer : Addr} : DoesAt p s (connectVia client p s i peer) :=
  doesAt_outer_of outer_sockBindIf (fun _ => sockBindIf_place) fun _ hplace => doesAt_outer outer_getIface fun _ =>
    doesAt_store (.trans (.of_place hplace) ⟨rfl, rfl⟩) (doesAt_outer outer_sockSaveRemote fun _ => .ite
      (doesAt_outer outer_clientSaveBySock fun _ => .ite does_connectStart .pure) .pure)

theorem does_connectRequest : Does (connectRequest client m) := by
  refine Walks.gets.bind fun r => ?_
  cases r with
  | none => exact outer_respondConnect.does
  | some p =>
    refine does_deref fun s => .ite outer_respondConnect.does.anywhere (.ite outer_respondConnect.does.anywhere
      (.ite outer_respondConnect.does.anywhere (doesAt_outer Walks.get fun w => ?_)))
    cases connectRoute w.routes s with
    | none => exact outer_respondConnect.does.anywhere
    | some route => exact does_connectVia

/-! ## Clients -/

theorem does_clientSockCloseFd {fd : Nat} : Does (clientSockCloseFd client fd) := by
  refine Walks.get.bind fun w => ?_
  cases (w.socksByClient.lookup client).bind (·.lookup fd) with
  | none => exact .pure
  | some p => exact does_sockShutdown.bind fun _ => .ite .pure does_sockClose

/-- Taking a client out of the table and closing its descriptor are one deed. -/
theorem does_leave : Walks World.Deed (fun w => client ∈ w.clients) (do
    Prog.modify fun w => { w with clients := w.clients.erase client }
    closeFd client
    pure 0 : M Int) := .one_wp fun _ hc => ⟨.of_eq rfl rfl, .leave hc⟩

theorem does_clientEof : Does (clientEof client) := by
  refine outer_fdClear.does.bind fun _ => Walks.get.bind fun w => ?_
  cases w.socksByClient.lookup client with
  | none => exact .pure
  | some socks =>
    refine (Walks.forEach fun _ _ => does_clientSockCloseFd).bind fun _ =>
      Walks.bind (outer_modify (by intro; rfl)).does fun _ => ?_
    refine Walks.get.bind_of (D := fun w w' => w' = w) (fun _ _ => rfl) fun w => ?_
    by_cases hc : client ∈ w.clients
    · rw [if_pos hc]
      exact does_leave.weaken fun _ h => h ▸ hc
    · rw [if_neg hc]
      exact .pure

/-- A new client is entered, or the call fails. -/
theorem acceptClient_enters {fd : Nat} :
    wp (acceptClient fd) (fun r w' => r < 0 ∧ w'.log = w.log ∨ ReflTransGen World.Deed w w') (fun _ => True) w := by
  have hfail {w₁ : World} (h : w₁.log = w.log) : wp (do
      closeFd (freshFd w.fds fd)
      pure (-1) : M Int) (fun r w' => r < 0 ∧ w'.log = w.log ∨ ReflTransGen World.Deed w w') (fun _ => True) w₁ :=
    .inl ⟨by decide, h⟩
  have hstill {m : M Bool} {w₁ : World} (hm : Outer m) (hl : Leaves World.goods m) :
      wp m (fun _ w₂ => w₁.Older w₂ ∧ w₂.goods = w₁.goods) (fun _ => True) w₁ :=
    hm.older.and (hl.wp (fun _ _ h => h) fun _ => trivial)
  rw [acceptClient, wp_bind, wp_get, wp_bind, wp_modify, wp_bind]
  refine (hstill outer_alloc goods_unseen.alloc).post fun ok₁ w₁ ⟨hold₁, h₁⟩ => ?_
  have hlog₁ : w₁.log = w.log := congrArg Goods.log h₁
  rw [wp_ite]
  refine ⟨fun _ => ?_, fun _ => hfail hlog₁⟩
  rw [wp_bind, wp_get, wp_bind]
  refine (hstill outer_dictRoom goods_unseen.dictRoom).post fun ok₂ w₂ ⟨hold₂, h₂⟩ => ?_
  have h₂ := h₂.trans h₁
  have hlog₂ : w₂.log = w.log := congrArg Goods.log h₂
  rw [wp_ite]
  refine ⟨fun _ => ?_, fun _ => hfail hlog₂⟩
  rw [wp_bind, wp_modify, wp_ite]
  refine ⟨fun _ => hfail hlog₂, fun _ => ?_⟩
  rw [wp_bind, wp_get, wp_bind]
  refine (hstill outer_dictRoom goods_unseen.dictRoom).post fun ok₃ w₃ ⟨hold₃, h₃⟩ => ?_
  have hlog₃ : w₃.log = w₂.log := congrArg Goods.log h₃
  rw [wp_ite]
  refine ⟨fun _ => .inr (.single ⟨?_, ?_⟩), fun _ => hfail (hlog₃.trans hlog₂)⟩
  · have hold : w.Older w₁ := ⟨hold₁.alloc, hold₁.wiring⟩
    have hold' : w₂.Older w₃ := ⟨hold₃.alloc, hold₃.wiring⟩
    exact ((hold.trans hold₂).trans hold').trans (.of_eq rfl rfl)
  rw [World.goods, World.goods, Goods.mk.injEq] at h₂ h₃
  obtain ⟨hheap, hnext, hfds, hclients, hlog⟩ := h₂
  obtain ⟨hheap', hnext', hfds', hclients', hlog'⟩ := h₃
  dsimp only at hheap hnext hfds hclients hlog hheap' hnext' hfds' hclients' hlog'
  have henter : w.goods.Deed (false ∈ w.sys.alloc) _ := .enter (freshFd_not_mem w.fds fd)
  change Goods.Deed _ _ ⟨w₃.heap, w₃.next, w₃.fds, w₃.clients, w₃.log⟩
  rw [hheap', hheap, hnext', hnext, hfds', hfds, hclients', hclients, hlog', hlog]
  exact henter

end M

/-! ## What the server takes from a client -/

/-- The number of the call that the turn of a client reads. -/
def M.readNumber (client : Nat) : M (Option Nat) := do
  match ← readClient client 4 with
  | none | some [] => pure none
  | some bs =>
    let m ← structOf bs
    pure (some (leValue (m.read 0 4)))

/-- The client whose turn it is. -/
def Event.turn : Event → Option Nat
  | .client c => some c
  | _ => none

/-- The call other than `connect` that the server takes from the client with the input. -/
def World.takes (w : World) (client : Nat) (inp : Input) : Option Nat :=
  if inp.event.turn = some client ∧ client ∈ w.clients ∧ w.fdsWatch client then
    match M.readNumber client { w with sys := inp.sys } with
    | .ok (some call, _) => if (M.serverCalls call).isSome ∧ call ≠ PATTY_CLIENT_CONNECT then some call else none
    | _ => none
  else none

namespace M

variable {client n : Nat} {w w' : World}

theorem answers_serverCalls {call : Nat → M Int} (h : serverCalls n = some call)
    (hn : n ≠ PATTY_CLIENT_CONNECT) : Answers client n (fun _ => True) (call client) := by
  have hrequest {k call : Nat} {request : Mem → M Int} (hr : ∀ m, Answers client call (fun _ => True) (request m)) :
      Answers client call (fun _ => True) (withRequest client k request) := by
    refine answers_does outer_readStruct.does ?_
    rintro (_ | m)
    · exact answers_fail
    · exact hr m
  unfold serverCalls at h
  split_ifs at h <;> cases h <;> subst n
  · exact answers_respond rfl
  · exact hrequest fun _ => answers_socketRequest
  · exact hrequest fun _ => answers_setsockoptRequest
  · exact hrequest fun _ => answers_bindRequest
  · exact hrequest fun _ => answers_listenRequest
  · exact hrequest fun _ => answers_acceptRequest
  · exact hrequest fun _ => answers_closeRequest

theorem does_serverConnect : Does (serverConnect client) := by
  refine outer_readStruct.does.bind fun r => ?_
  cases r with
  | none => exact .pure
  | some m => exact does_connectRequest

/-- The turn of a client does deeds, and answers the call that it takes last. -/
theorem handleClient_deeds {r : Int} (h : handleClient client w = .ok (r, w')) :
    r < 0 ∧ ReflTransGen World.Deed w w' ∨ match readNumber client w with
    | .ok (some call, _) => if (serverCalls call).isSome ∧ call ≠ PATTY_CLIENT_CONNECT then w.Answered client call w'
      else ReflTransGen World.Deed w w'
    | _ => ReflTransGen World.Deed w w' := by
  obtain ⟨bs, w₁, hread, h⟩ := bind_eq_ok.mp h
  have hw₁ : ReflTransGen World.Deed w w₁ := outer_readClient.does w bs w₁ trivial hread
  rcases bs with _ | _ | ⟨b, bs⟩
  · cases h
    exact .inl ⟨by decide, hw₁⟩
  · have hnumber : readNumber client w = .ok (none, w₁) := by
      rw [readNumber, bind_ok hread]
      rfl
    rw [hnumber]
    exact .inr (hw₁.trans (does_clientEof w₁ r w' trivial h))
  · obtain ⟨m, w₂, hstruct, h⟩ := bind_eq_ok.mp h
    have hw₂ : ReflTransGen World.Deed w w₂ := hw₁.trans (outer_structOf.does w₁ m w₂ trivial hstruct)
    have hnumber : readNumber client w = .ok (some (leValue (m.read 0 4)), w₂) := by
      rw [readNumber, bind_ok hread]
      exact bind_ok hstruct
    rw [hnumber]
    dsimp only at h ⊢
    cases hcall : serverCalls (leValue (m.read 0 4)) with
    | none =>
      rw [hcall] at h
      cases h
      rw [if_neg fun h => absurd h.1 Bool.false_ne_true]
      exact .inr hw₂
    | some call =>
      rw [hcall] at h
      by_cases hn : leValue (m.read 0 4) = PATTY_CLIENT_CONNECT
      · rw [if_neg fun h => h.2 hn]
        rw [hn] at hcall
        cases hcall
        exact .inr (hw₂.trans (does_serverConnect w₂ r w' trivial h))
      · rw [if_pos ⟨rfl, hn⟩]
        exact Answered.of_deeds hw₂ (answers_serverCalls hcall hn w₂ r w' trivial h)

end M

/-! ## Steps -/

/-- What a step comes to that the server survives: deeds, and then the answer to the call that it has taken. Its end
may take an interface down or stop the server, which changes nothing of what it holds. -/
def World.Goes (w : World) (inp : Input) (w' : World) : Prop := ∃ w₁ : World, w₁.Ends w' ∧
  (ReflTransGen World.Deed { w with sys := inp.sys } w₁ ∧ (∀ client, w.takes client inp = none) ∨
    ∃ client n, World.Answered client n { w with sys := inp.sys } w₁ ∧ w.takes client inp = some n ∧
      ∀ c ≠ client, w.takes c inp = none)

theorem takes_none {w : World} {inp : Input} (h : inp.event.turn = none) (client : Nat) :
    w.takes client inp = none := by
  rw [World.takes, if_neg]
  rintro ⟨hturn, -⟩
  rw [h] at hturn
  cases hturn

theorem takes_other {w : World} {inp : Input} {client c : Nat} (h : inp.event.turn = some client) (hc : c ≠ client) :
    w.takes c inp = none := by
  rw [World.takes, if_neg]
  rintro ⟨hturn, -⟩
  exact hc (Option.some.inj (hturn.symm.trans h))

theorem World.Goes.ends {w w₁ w' : World} {inp : Input} (h : w.Goes inp w₁) (hends : w₁.Ends w') :
    w.Goes inp w' := by
  obtain ⟨w₂, hends₂, h⟩ := h
  exact ⟨w₂, hends₂.trans hends, h⟩

theorem goes_deeds {w w' : World} {inp : Input} (hturn : inp.event.turn = none)
    (hdeeds : ReflTransGen World.Deed { w with sys := inp.sys } w') : w.Goes inp w' :=
  ⟨w', .rfl, .inl ⟨hdeeds, takes_none hturn⟩⟩

/-- The turn of a client goes as a step does, or it fails and has done nothing but deeds. -/
theorem goes_client {w w' : World} {client : Nat} {sys : Sys} {r : Int}
    (h : M.handleEvent (.client client) { w with sys } = .ok (r, w')) :
    r < 0 ∧ ReflTransGen World.Deed { w with sys } w' ∨ w.Goes ⟨.client client, sys⟩ w' := by
  rw [M.handleEvent, bind_run, get_run] at h
  dsimp only at h
  by_cases hc : client ∈ w.clients ∧ w.fdsWatch client
  · rw [if_pos hc] at h
    have htakes : w.takes client ⟨.client client, sys⟩ = _ := if_pos ⟨rfl, hc⟩
    refine (M.handleClient_deeds h).imp_right fun hdeeds => ⟨w', .rfl, ?_⟩
    have hnone (hn : w.takes client ⟨.client client, sys⟩ = none) (c : Nat) :
        w.takes c ⟨.client client, sys⟩ = none := by
      by_cases hne : c = client
      · rw [hne]
        exact hn
      · exact takes_other rfl hne
    split at hdeeds
    · next call _ hnumber =>
      rw [hnumber] at htakes
      dsimp only at htakes
      split at hdeeds
      · next hcall =>
        rw [if_pos hcall] at htakes
        exact .inr ⟨client, call, hdeeds, htakes, fun c hne => takes_other rfl hne⟩
      · next hcall =>
        rw [if_neg hcall] at htakes
        exact .inl ⟨hdeeds, hnone htakes⟩
    · next hnumber =>
      refine .inl ⟨hdeeds, hnone ?_⟩
      rw [htakes]
      split
      · next call w₂ hcall => exact absurd hcall (hnumber call w₂)
      · rfl
  · rw [if_neg hc] at h
    cases h
    refine .inr ⟨_, .rfl, .inl ⟨.refl, fun c => if_neg ?_⟩⟩
    rintro ⟨hturn, hc'⟩
    cases hturn
    exact hc hc'

/-- A frame changes the sockets by deeds; then its interface may be taken down. -/
theorem goes_frame {w w' : World} {i len : Nat} {buf : Mem} {sys : Sys} {r : Int}
    (h : M.handleEvent (.frame i buf len) { w with sys } = .ok (r, w')) : w.Goes ⟨.frame i buf len, sys⟩ w' := by
  have hheld {w₁ : World} (hw₁ : ReflTransGen World.Deed { w with sys } w₁) : w.Goes ⟨.frame i buf len, sys⟩ w₁ :=
    goes_deeds rfl hw₁
  rw [M.handleEvent, bind_run, get_run] at h
  dsimp only at h
  cases hi : w.ifaces[i]? with
  | none =>
    rw [hi] at h
    cases h
    exact hheld .refl
  | some iface =>
    rw [hi] at h
    dsimp only at h
    split_ifs at h
    · cases h
      exact hheld .refl
    · obtain ⟨r₁, w₁, h₁, h₂⟩ := bind_eq_ok.mp h
      exact (hheld (M.does_handleFrame _ r₁ w₁ trivial h₁)).ends (M.frameResult_ends.ok h₂)

/-- A step goes so, or it ends the run and has answered nothing. -/
theorem goes_step {w w' : World} {inp : Input} (h : w.Step inp w') :
    w.Goes inp w' ∨ w'.running = false ∧ ∀ client, w'.prompts client = w.prompts client := by
  obtain ⟨-, r, w₁, hevent, rfl⟩ := M.step_handles h
  obtain ⟨event, sys⟩ := inp
  have hstop : w₁.Ends (if r < 0 then { w₁ with running := false } else w₁) := by
    split
    · exact ⟨rfl, fun _ _ h => h⟩
    · exact .rfl
  have hends (hr : r < 0) (hlog : w₁.log = w.log ∨ ReflTransGen World.Deed { w with sys } w₁) :
      (if r < 0 then { w₁ with running := false } else w₁).running = false ∧
        ∀ client, (if r < 0 then { w₁ with running := false } else w₁).prompts client = w.prompts client := by
    rw [if_pos hr]
    refine ⟨rfl, fun client => ?_⟩
    rcases hlog with hlog | hdeeds
    · exact congrArg (List.filterMap (Out.prompt client)) hlog
    · exact prompts_deeds hdeeds client
  cases event with
  | sock fd elapsed ready inp =>
    have hsock : M.Does (M.handleEvent (.sock fd elapsed ready inp)) := by
      refine Walks.gets.bind fun q => ?_
      cases q with
      | none => exact .pure
      | some p => exact M.does_handleSock
    exact .inl ((goes_deeds rfl (hsock _ r w₁ trivial hevent)).ends hstop)
  | client client =>
    rcases goes_client hevent with ⟨hr, hdeeds⟩ | hgoes
    · exact .inr (hends hr (.inr hdeeds))
    · exact .inl (hgoes.ends hstop)
  | write client bs =>
    have hwrite : M.Does (M.handleEvent (.write client bs)) :=
      Walks.bind (M.outer_modify (by intro; rfl)).does fun _ => .pure
    exact .inl ((goes_deeds rfl (hwrite _ r w₁ trivial hevent)).ends hstop)
  | accept fd =>
    rcases M.acceptClient_enters.ok hevent with ⟨hr, hlog⟩ | hdeeds
    · exact .inr (hends hr (.inl hlog))
    · exact .inl ((goes_deeds rfl hdeeds).ends hstop)
  | frame i buf len => exact .inl ((goes_frame hevent).ends hstop)

end Patty
