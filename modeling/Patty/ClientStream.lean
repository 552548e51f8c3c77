import Patty.Inbox

/-! # The stream of a client's requests

A client writes its requests one after the other, and the server takes them from the stream again by
the sizes it expects. Each call takes exactly the bytes of its request, except `setsockopt` where it
responds before it has read the value of the option: then the value is left, and is read as the next
call (`handleClient_reads`). Over a run of the server, the stream stays in step exactly as long as no
request with a value meets one of these cases (`inStep_path`). -/

namespace Patty

/-! ## Requests -/

/-- A request as the functions of `client.c` write it. -/
inductive Request
  | ping
  | socket (proto type : Nat)
  | setsockopt (fd opt : Nat) (value : Bytes)
  | bind (fd : Nat) (addr : Addr)
  | listen (fd : Nat)
  | accept (fd : Nat)
  | connect (fd : Nat) (peer : Addr)
  | close (fd : Nat)

namespace Request

def call : Request → Nat
  | ping => PATTY_CLIENT_PING
  | socket .. => PATTY_CLIENT_SOCKET
  | setsockopt .. => PATTY_CLIENT_SETSOCKOPT
  | bind .. => PATTY_CLIENT_BIND
  | listen .. => PATTY_CLIENT_LISTEN
  | accept .. => PATTY_CLIENT_ACCEPT
  | connect .. => PATTY_CLIENT_CONNECT
  | close .. => PATTY_CLIENT_CLOSE

/-- The structure of the request, with the padding after an address. -/
def body : Request → Bytes
  | ping => []
  | socket proto type => leBytes 4 proto ++ leBytes 4 type
  | setsockopt fd opt value => leBytes 4 fd ++ (leBytes 4 opt ++ leBytes 8 value.length)
  | bind fd addr | connect fd addr => leBytes 4 fd ++ (addr.toBytes ++ [0])
  | listen fd | accept fd | close fd => leBytes 4 fd

/-- What follows the structure. -/
def value : Request → Bytes
  | setsockopt _ _ value => value
  | _ => []

def bytes (r : Request) : Bytes := leBytes 4 r.call ++ (r.body ++ r.value)

theorem call_lt (r : Request) : r.call < 256 ^ 4 := by
  cases r <;> simp only [call] <;> decide

/-- The arguments of `setsockopt` fit their fields, and the value of an option its structure. -/
def WF : Request → Prop
  | setsockopt fd opt value => fd < 2 ^ 32 ∧ opt < 2 ^ 32 ∧ value.length < 2 ^ 64 ∧
      (opt = PATTY_AX25_SOCK_PARAMS → value.length ≤ SetsockoptParams.size) ∧
      (opt = PATTY_AX25_SOCK_IF → value.length ≤ SetsockoptIf.size)
  | _ => True

end Request

/-- The server reads the value of the option `opt` for the descriptor `fd`: the socket exists, and
the option is one that is read for its type. -/
def World.ReadsOption (w : World) (fd opt : Nat) : Prop :=
  ∃ p, w.socksByFd.lookup fd = some p ∧ (opt = PATTY_AX25_SOCK_PARAMS ∨
    opt = PATTY_AX25_SOCK_IF ∧ ∀ s, w.heap p = some s → s.type = .raw)

/-- The server takes the whole request: no value is there to be left, or it is read. -/
def World.TakesAll (w : World) : Request → Prop
  | .setsockopt fd opt value => value = [] ∨ w.ReadsOption fd opt
  | _ => True

namespace M

open Prog

variable {E : Fault → Prop} {w : World} {c n : Nat} {bs rest : Bytes}

/-! ## Reading -/

/-- No read from a client fails. -/
def ReadsOk (sys : Sys) : Prop := ∀ a ∈ sys.clientRead, a = none

/-- After a read of `bs` from the client `c`: the value read satisfies `P`, `rest` is left, and
nothing else changed that matters to a call. -/
structure HasRead {α : Type} (w : World) (c : Nat) (rest : Bytes) (P : α → Prop) (a : α)
    (w' : World) : Prop where
  result : P a
  inbox : w'.inbox c = rest
  ok : ReadsOk w'.sys
  core : w'.core = w.core

theorem readClient_take (hok : ReadsOk w.sys) : wp (readClient c n)
    (HasRead w c ((w.inbox c).drop n) (· = some ((w.inbox c).take n))) E w := by
  have hans : wp (answer (·.clientRead) (fun sys l => { sys with clientRead := l }) none)
      (fun a w' => a = none ∧ w'.inbox = w.inbox ∧ w'.core = w.core ∧ ReadsOk w'.sys) E w := by
    rw [wp_answer]
    refine ⟨fun _ => ⟨rfl, rfl, rfl, hok⟩, fun a l h => ⟨hok a (by simp [h]), rfl, rfl, ?_⟩⟩
    exact fun b hb => hok b (by simp [h, show b ∈ l from hb])
  rw [readClient, wp_bind]
  refine hans.post fun a w' => ?_
  rintro ⟨rfl, hinbox, hcore, hok'⟩
  simp only [wp_bind, wp_get, wp_modify, wp_pure, hinbox]
  exact ⟨rfl, by simp, hok', hcore⟩

theorem readClient_spec (hin : w.inbox c = bs ++ rest) (hn : bs.length = n)
    (hok : ReadsOk w.sys) : wp (readClient c n) (HasRead w c rest (· = some bs)) E w := by
  refine (readClient_take hok).post fun a w' h => ?_
  subst hn
  rw [hin, List.drop_left, List.take_left] at h
  exact h

theorem structOf_spec (hin : w.inbox c = rest) (hok : ReadsOk w.sys) :
    wp (structOf bs) (HasRead w c rest fun m => ∃ m₀, m = Mem.store m₀ 0 bs) E w := by
  rw [structOf, wp_bind, junk, wp_answer]
  exact ⟨fun _ => ⟨⟨_, rfl⟩, hin, hok, rfl⟩, fun m l _ => ⟨⟨_, rfl⟩, hin, hok, rfl⟩⟩

theorem readStruct_spec (hin : w.inbox c = bs ++ rest) (hn : bs.length = n)
    (hok : ReadsOk w.sys) : wp (readStruct c n)
      (HasRead w c rest fun a => ∃ m₀, a = some (Mem.store m₀ 0 bs)) E w := by
  rw [readStruct, wp_bind]
  refine (readClient_spec hin hn hok).post fun a w' h => ?_
  obtain rfl := h.result
  dsimp only
  rw [wp_map]
  refine (structOf_spec h.inbox h.ok).post fun m w'' h' => ?_
  obtain ⟨m₀, rfl⟩ := h'.result
  exact ⟨⟨m₀, rfl⟩, h'.inbox, h'.ok, h'.core.trans h.core⟩

theorem readOption_spec (hin : w.inbox c = bs ++ rest) (hok : ReadsOk w.sys)
    (hn : bs.length ≤ n) : wp (readOption c bs.length n)
      (HasRead w c rest fun a => ∃ m₀, a = some (Mem.store m₀ 0 bs)) E w := by
  rw [readOption, wp_bind]
  refine (readClient_spec hin rfl hok).post fun a w' h => ?_
  obtain rfl := h.result
  dsimp only
  rw [if_neg (by omega), wp_map]
  refine (structOf_spec h.inbox h.ok).post fun m w'' h' => ?_
  obtain ⟨m₀, rfl⟩ := h'.result
  exact ⟨⟨m₀, rfl⟩, h'.inbox, h'.ok, h'.core.trans h.core⟩

/-- After what reads nothing, the client's stream is as it was. -/
theorem unread_spec {α : Type} {m : M α} (h : Unread m) (hin : w.inbox c = rest) :
    wp m (fun _ w' => w'.inbox c = rest) (fun _ => True) w :=
  h.wp (fun _ w' hw => by rw [hw, hin]) fun _ => trivial

/-! ## One request -/

/-- A call that reads only its structure takes exactly that. -/
theorem withRequest_spec {k : Mem → M Int} (hk : ∀ m, Unread (k m)) (hin : w.inbox c = bs ++ rest)
    (hn : bs.length = n) (hok : ReadsOk w.sys) :
    wp (withRequest c n k) (fun _ w' => w'.inbox c = rest) (fun _ => True) w := by
  rw [withRequest, wp_bind]
  refine (readStruct_spec hin hn hok).post fun a w' h => ?_
  obtain ⟨m₀, rfl⟩ := h.result
  exact unread_spec (hk _) h.inbox

/-! ## `setsockopt` -/

/-- The server finds the arguments of `setsockopt` in the structure it has read. -/
theorem ofMem_setsockopt {fd opt : Nat} {value : Bytes}
    (hreq : (Request.setsockopt fd opt value).WF) (m : Mem) :
    SetsockoptRequest.ofMem (m.store 0 (Request.setsockopt fd opt value).body) =
      ⟨fd, opt, value.length⟩ := by
  obtain ⟨hfd, hopt, hlen, -, -⟩ := hreq
  have hsize : (Request.setsockopt fd opt value).body.length = 16 := by simp [Request.body]
  simp only [SetsockoptRequest.ofMem]
  rw [Mem.read_store_within (by omega) (by omega), Mem.read_store_within (by omega) (by omega),
    Mem.read_store_within (by omega) (by omega)]
  have h4 : leValue (leBytes 4 fd) = fd := leValue_leBytes_of_lt (by omega)
  have h4' : leValue (leBytes 4 opt) = opt := leValue_leBytes_of_lt (by omega)
  have h8 : leValue (leBytes 8 value.length) = value.length := leValue_leBytes_of_lt (by omega)
  have hdrop : (leBytes 4 fd).drop 8 = [] := List.drop_eq_nil_of_le (by simp)
  have htake : (leBytes 8 value.length).take 8 = leBytes 8 value.length :=
    List.take_of_length_le (by simp)
  simp [Request.body, List.drop_append, hdrop, htake, h4, h4', h8]

/-- After an option is read, nothing of it is left. -/
theorem withOption_spec {k : Mem → M Int} {value : Bytes} (hk : ∀ m, Unread (k m))
    (hin : w.inbox c = value ++ rest) (hok : ReadsOk w.sys) (hn : value.length ≤ n) :
    wp (withOption c value.length n k) (fun _ w' => w'.inbox c = rest) (fun _ => True) w := by
  rw [withOption, wp_bind]
  refine (readOption_spec hin hok hn).post fun a w' h => ?_
  obtain ⟨m₀, rfl⟩ := h.result
  exact unread_spec (hk _) h.inbox

theorem setsockoptIf_spec {p : Ptr} {value : Bytes} (hin : w.inbox c = value ++ rest)
    (hok : ReadsOk w.sys) (hn : value.length ≤ SetsockoptIf.size) :
    wp (setsockoptIf c value.length p)
      (fun _ w' => ((∀ s, w.heap p = some s → s.type = .raw) ∧ w'.inbox c = rest) ∨
        (¬(∀ s, w.heap p = some s → s.type = .raw) ∧ w'.inbox c = value ++ rest))
      (fun _ => True) w := by
  rw [setsockoptIf, wp_bind, wp_deref]
  refine ⟨fun s hs => ?_, fun _ => trivial⟩
  simp only [hs, Option.some.injEq, forall_eq']
  split_ifs with hraw
  · exact (unread_spec quiet_respond.inbox hin).post fun _ _ h => .inr ⟨hraw, h⟩
  · exact (withOption_spec (fun _ => unread_ifOption) hin hok hn).post fun _ _ h =>
      .inl ⟨not_not.mp hraw, h⟩

/-- `setsockopt` leaves the value of an option that it does not read. -/
theorem setsockopt_spec {fd opt : Nat} {value : Bytes}
    (hreq : (Request.setsockopt fd opt value).WF)
    (hin : w.inbox c = (Request.setsockopt fd opt value).body ++ (value ++ rest))
    (hok : ReadsOk w.sys) :
    wp (serverSetsockopt c)
      (fun _ w' => (w.TakesAll (.setsockopt fd opt value) → w'.inbox c = rest) ∧
        (¬w.TakesAll (.setsockopt fd opt value) → w'.inbox c = value ++ rest))
      (fun _ => True) w := by
  have hleft {m : M Int} {w' : World} (hm : Unread m) (h : w'.inbox c = value ++ rest)
      (hn : ¬w.ReadsOption fd opt) : wp m (fun _ w' =>
        (w.TakesAll (.setsockopt fd opt value) → w'.inbox c = rest) ∧
        (¬w.TakesAll (.setsockopt fd opt value) → w'.inbox c = value ++ rest))
        (fun _ => True) w' := by
    refine (unread_spec hm h).post fun _ w'' h' => ⟨fun ht => ?_, fun _ => h'⟩
    obtain rfl | ht := ht
    · exact h'
    · exact absurd ht hn
  have htaken {m : M Int} {w' : World} (hn : w.ReadsOption fd opt)
      (hm : wp m (fun _ w' => w'.inbox c = rest) (fun _ => True) w') : wp m (fun _ w' =>
        (w.TakesAll (.setsockopt fd opt value) → w'.inbox c = rest) ∧
        (¬w.TakesAll (.setsockopt fd opt value) → w'.inbox c = value ++ rest))
        (fun _ => True) w' :=
    hm.post fun _ _ h' => ⟨fun _ => h', fun ht => absurd (.inr hn) ht⟩
  rw [serverSetsockopt, withRequest, wp_bind]
  refine (readStruct_spec hin (by simp [Request.body]) hok).post fun a w' h => ?_
  obtain ⟨m₀, rfl⟩ := h.result
  have hfd : w'.socksByFd = w.socksByFd := congrArg Core.socksByFd h.core
  have hheap : w'.heap = w.heap := congrArg Core.heap h.core
  simp only [setsockoptRequest, ofMem_setsockopt hreq, wp_bind, wp_sockByFd, hfd]
  obtain ⟨-, -, -, hparams, hif⟩ := hreq
  cases hp : w.socksByFd.lookup fd with
  | none =>
    refine hleft quiet_respond.inbox h.inbox ?_
    rintro ⟨p, hp', -⟩
    rw [hp] at hp'
    cases hp'
  | some p =>
    dsimp only
    split_ifs with h0 h1
    · exact htaken ⟨p, hp, .inl h0⟩ (withOption_spec (fun _ => unread_paramsOption) h.inbox h.ok (hparams h0))
    · refine (setsockoptIf_spec (p := p) h.inbox h.ok (hif h1)).post fun _ w'' h' => ?_
      rw [hheap] at h'
      obtain ⟨hraw, h'⟩ | ⟨hraw, h'⟩ := h'
      · exact ⟨fun _ => h', fun ht => absurd (.inr ⟨p, hp, .inr ⟨h1, hraw⟩⟩) ht⟩
      · refine ⟨fun ht => ?_, fun _ => h'⟩
        obtain rfl | ⟨p', hp', h2 | ⟨-, hraw'⟩⟩ := ht
        · exact h'
        · exact absurd h2 h0
        · rw [hp] at hp'
          cases hp'
          exact absurd hraw' hraw
    · refine hleft quiet_respond.inbox h.inbox ?_
      rintro ⟨p', -, h' | ⟨h', -⟩⟩
      · exact h0 h'
      · exact h1 h'

/-! ## Any request -/

/-- Each call with its request: what it leaves is the value of an option that it does not read. -/
theorem serverCalls_spec {req : Request} (hreq : req.WF)
    (hin : w.inbox c = req.body ++ (req.value ++ rest)) (hok : ReadsOk w.sys) :
    ∃ call, serverCalls req.call = some call ∧ wp (call c)
      (fun _ w' => (w.TakesAll req → w'.inbox c = rest) ∧
        (¬w.TakesAll req → w'.inbox c = req.value ++ rest)) (fun _ => True) w := by
  have hall {m : M Int} (h : w.TakesAll req)
      (hm : wp m (fun _ w' => w'.inbox c = rest) (fun _ => True) w) :
      wp m (fun _ w' => (w.TakesAll req → w'.inbox c = rest) ∧
        (¬w.TakesAll req → w'.inbox c = req.value ++ rest)) (fun _ => True) w :=
    hm.post fun _ _ h' => ⟨fun _ => h', fun hn => absurd h hn⟩
  cases req with
  | ping => exact ⟨_, rfl, hall trivial (unread_spec quiet_respond.inbox hin)⟩
  | socket proto type =>
    exact ⟨_, rfl, hall trivial (withRequest_spec (fun _ => unread_socketRequest) hin
      (by simp [Request.body]) hok)⟩
  | setsockopt fd opt value => exact ⟨_, rfl, setsockopt_spec hreq hin hok⟩
  | bind fd addr =>
    exact ⟨_, rfl, hall trivial (withRequest_spec (fun _ => unread_bindRequest) hin
      (by simp [Request.body]) hok)⟩
  | listen fd =>
    exact ⟨_, rfl, hall trivial (withRequest_spec (fun _ => unread_listenRequest) hin
      (by simp [Request.body]) hok)⟩
  | accept fd =>
    exact ⟨_, rfl, hall trivial (withRequest_spec (fun _ => unread_acceptRequest) hin
      (by simp [Request.body]) hok)⟩
  | connect fd peer =>
    exact ⟨_, rfl, hall trivial (withRequest_spec (fun _ => unread_connectRequest) hin
      (by simp [Request.body]) hok)⟩
  | close fd =>
    exact ⟨_, rfl, hall trivial (withRequest_spec (fun _ => unread_closeRequest) hin
      (by simp [Request.body]) hok)⟩

/-- The turn of a client whose next request is `req`: exactly the request is taken if the server
reads all of it, and else the value of its option is left. -/
theorem handleClient_reads {req : Request} (hreq : req.WF) (hin : w.inbox c = req.bytes ++ rest)
    (hok : ReadsOk w.sys) : wp (handleClient c)
      (fun _ w' => (w.TakesAll req → w'.inbox c = rest) ∧
        (¬w.TakesAll req → w'.inbox c = req.value ++ rest)) (fun _ => True) w := by
  have hin' : w.inbox c = leBytes 4 req.call ++ (req.body ++ (req.value ++ rest)) := by
    rw [hin]; simp [Request.bytes]
  rw [handleClient, wp_bind]
  refine (readClient_spec hin' (by simp) hok).post fun a w' h => ?_
  obtain rfl := h.result
  obtain ⟨b, bs, hbs⟩ : ∃ b bs, leBytes 4 req.call = b :: bs := ⟨_, _, rfl⟩
  simp only [hbs]
  rw [← hbs, wp_bind]
  refine (structOf_spec h.inbox h.ok).post fun m w'' h' => ?_
  obtain ⟨m₀, rfl⟩ := h'.result
  have hcall : leValue ((m₀.store 0 (leBytes 4 req.call)).read 0 4) = req.call := by
    rw [Mem.read_store_same' (by simp), leValue_leBytes_of_lt req.call_lt]
  rw [hcall]
  obtain ⟨call, heq, hcall⟩ := serverCalls_spec (w := w'') hreq h'.inbox h'.ok
  have hcore : w''.core = w.core := h'.core.trans h.core
  have htakes : w''.TakesAll req ↔ w.TakesAll req := by
    have hfd : w''.socksByFd = w.socksByFd := congrArg Core.socksByFd hcore
    have hheap : w''.heap = w.heap := congrArg Core.heap hcore
    cases req <;> simp [World.TakesAll, World.ReadsOption, hfd, hheap]
  rw [heq]
  simpa only [htakes] using hcall

/-- The turn of a client that has written nothing: it has closed its end. -/
theorem handleClient_empty (hin : w.inbox c = []) (hok : ReadsOk w.sys) :
    wp (handleClient c) (fun _ w' => w'.inbox c = []) (fun _ => True) w := by
  rw [handleClient, wp_bind]
  refine (readClient_take hok).post fun a w' h => ?_
  simp only [hin, List.take_nil, List.drop_nil] at h
  obtain rfl := h.result
  exact unread_spec unread_clientEof h.inbox

end M

/-! ## Runs -/

/-- The requests a client has issued and the server has not taken yet, in order, are what is in the
client's stream. -/
def InStep (client : Nat) (t : World × List Request) : Prop :=
  t.1.inbox client = t.2.flatMap Request.bytes ∧ ∀ req ∈ t.2, req.WF

/-- It is the turn of the client. -/
def World.Serves (w : World) (client : Nat) (inp : Input) : Prop :=
  inp.event = .client client ∧ client ∈ w.clients ∧ w.fdsWatch client

/-- A step of the server beside the requests of one client that it should still take: the client
issues a request, or the server takes the first one in the client's turn, or neither. Reading from
the client does not fail. -/
inductive ClientStep (client : Nat) : World × List Request → Input → World × List Request → Prop
  | issue {w w' : World} {reqs : List Request} {sys : Sys} {req : Request} : req.WF →
    w.Step ⟨.write client req.bytes, sys⟩ w' →
    ClientStep client (w, reqs) ⟨.write client req.bytes, sys⟩ (w', reqs ++ [req])
  | serve {w w' : World} {reqs : List Request} {inp : Input} : w.Serves client inp →
    M.ReadsOk inp.sys → w.Step inp w' → ClientStep client (w, reqs) inp (w', reqs.tail)
  | other {w w' : World} {reqs : List Request} {inp : Input} : ¬w.Serves client inp →
    (∀ bs, inp.event ≠ .write client bs) → w.Step inp w' →
    ClientStep client (w, reqs) inp (w', reqs)

/-- If it is the client's turn, the server takes all of the request that is due. -/
def TurnTakesAll (client : Nat) (t : World × List Request) (inp : Input) : Prop :=
  t.1.Serves client inp → ∀ req ∈ t.2.head?, t.1.TakesAll req

open Prog M

/-- The client's turn keeps the stream in step exactly if the server takes all of the request. -/
theorem inStep_serve {client : Nat} {w w' : World} {reqs : List Request} {inp : Input}
    (h : InStep client (w, reqs)) (hturn : w.Serves client inp) (hok : ReadsOk inp.sys)
    (hstep : w.Step inp w') :
    InStep client (w', reqs.tail) ↔ ∀ req ∈ reqs.head?, w.TakesAll req := by
  obtain ⟨-, r, w'', hr, rfl⟩ := step_handles hstep
  obtain ⟨hev, hmem, hwatch⟩ := hturn
  have hrun : handleClient client { w with sys := inp.sys } = .ok (r, w'') := by
    simpa [hev, handleEvent, bind_run, hmem, hwatch] using hr
  have hinbox : ∀ w'' : World, (if r < 0 then { w'' with running := false } else w'').inbox =
      w''.inbox := fun w'' => by split_ifs <;> rfl
  obtain ⟨hin, hwf⟩ := h
  simp only [InStep, hinbox] at hin ⊢
  cases reqs with
  | nil => simpa using (handleClient_empty (w := { w with sys := inp.sys }) hin hok).ok hrun
  | cons req reqs =>
    have hspec := (handleClient_reads (w := { w with sys := inp.sys }) (hwf req (by simp)) hin
      hok).ok hrun
    have htakes : World.TakesAll { w with sys := inp.sys } req ↔ w.TakesAll req := Iff.rfl
    rw [htakes] at hspec
    have hwf' : ∀ req ∈ reqs, req.WF := fun r hr => hwf r (by simp [hr])
    simp only [List.tail_cons, List.head?_cons, Option.mem_def, Option.some.injEq, forall_eq']
    refine ⟨fun h => by_contra fun hn => ?_, fun ht => ⟨hspec.1 ht, hwf'⟩⟩
    have hval : req.value = [] := List.append_left_eq_self.mp ((hspec.2 hn).symm.trans h.1)
    cases req with
    | setsockopt fd opt value => exact hn (.inl hval)
    | _ => exact hn trivial

/-- A step keeps the stream in step exactly if the server takes all of the request that is due. -/
theorem inStep_step {client : Nat} {t t' : World × List Request} {inp : Input}
    (h : InStep client t) (hs : ClientStep client t inp t') :
    InStep client t' ↔ TurnTakesAll client t inp := by
  have hinbox : ∀ (r : Int) (w : World),
      (if r < 0 then { w with running := false } else w).inbox = w.inbox := fun r w => by
    split_ifs <;> rfl
  cases hs with
  | issue hreq hstep =>
    obtain ⟨-, r, w'', hr, rfl⟩ := step_handles hstep
    refine iff_of_true ⟨?_, ?_⟩ fun hturn => nomatch hturn.1
    · obtain ⟨⟨⟩, w₁, h₁, h₂⟩ := bind_eq_ok.mp hr
      cases h₁
      cases h₂
      simpa [hinbox] using h.1
    · intro r hr
      obtain hr | hr := List.mem_append.mp hr
      · exact h.2 r hr
      · rw [List.mem_singleton.mp hr]; exact hreq
  | serve hturn hok hstep =>
    exact (inStep_serve h hturn hok hstep).trans ⟨fun ht _ => ht, fun ht => ht hturn⟩
  | @other w w' reqs inp hturn hwrite hstep =>
    obtain ⟨-, r, w'', hr, rfl⟩ := step_handles hstep
    refine iff_of_true ⟨?_, h.2⟩ fun h => absurd h hturn
    simp only [hinbox]
    refine Eq.trans ?_ h.1
    by_cases hev : inp.event = .client client
    · have hidle : ¬(client ∈ w.clients ∧ w.fdsWatch client) := fun h => hturn ⟨hev, h⟩
      simp only [hev, handleEvent, bind_run, get_run, hidle, if_false] at hr
      cases hr
      rfl
    · exact other_handleEvent hev hwrite { w with sys := inp.sys } r w'' hr

/-- In every run of the server, the stream of a client is in step in all states exactly if in each of
the client's turns the server takes all of the request that is due. -/
theorem inStep_path {client : Nat} {t : World × List Request} (h : InStep client t)
    {l : List (Input × (World × List Request))} (hl : Trace (ClientStep client) t l) :
    (∀ x ∈ l, InStep client x.2) ↔ Meets (TurnTakesAll client) t l :=
  Trace.invariant_iff (fun _ _ _ h hs => inStep_step h hs) h hl

/-- A client connects, makes a STREAM socket, and sets its parameters. -/
def paramsInputs : List Input :=
  [⟨.accept 5, .allOk⟩,
   ⟨.write 5 (Request.socket 0xf0 0).bytes, .allOk⟩,
   ⟨.client 5, .allOk⟩,
   ⟨.write 5 (Request.setsockopt 3 0 (leBytes 40 0)).bytes, .allOk⟩,
   ⟨.client 5, .allOk⟩]

/-- The last step of these inputs, in which the server takes the request with its option. -/
theorem inStep_params :
    (∀ x ∈ [((⟨.client 5, .allOk⟩ : Input), (World.bare.after paramsInputs, ([] : List Request)))],
      InStep 5 x.2) ↔
    Meets (TurnTakesAll 5)
      (World.bare.after (paramsInputs.take 4), [.setsockopt 3 0 (leBytes 40 0)])
      [(⟨.client 5, .allOk⟩, (World.bare.after paramsInputs, []))] :=
  inStep_path (t := (World.bare.after (paramsInputs.take 4), [.setsockopt 3 0 (leBytes 40 0)]))
    ⟨by decide, by simp [Request.WF]⟩
    (.cons (.serve ⟨rfl, by decide, by decide⟩ (fun _ h => nomatch h)
      (World.step_after (paramsInputs.take 4) (by decide))) .nil)

/-- A client connects and sets the parameters of a descriptor that the server does not know. -/
def badfdInputs : List Input :=
  [⟨.accept 5, .allOk⟩,
   ⟨.write 5 (Request.setsockopt 9 0 (leBytes 40 0)).bytes, .allOk⟩,
   ⟨.client 5, .allOk⟩]

/-- The value of the option is left in the stream after the request was answered. -/
theorem not_inStep_badfd : ¬∀ (client : Nat) (t : World × List Request)
    (l : List (Input × (World × List Request))), InStep client t →
    Trace (ClientStep client) t l → ∀ x ∈ l, InStep client x.2 := by
  intro h
  have hstep := List.forall_mem_singleton.mp <|
    h 5 (World.bare.after (badfdInputs.take 2), [.setsockopt 9 0 (leBytes 40 0)])
      [(⟨.client 5, .allOk⟩, (World.bare.after badfdInputs, []))] ⟨by decide, by simp [Request.WF]⟩
      (.cons (.serve ⟨rfl, by decide, by decide⟩ (fun _ h => nomatch h)
        (World.step_after (badfdInputs.take 2) (by decide))) .nil)
  exact absurd hstep.1 (by decide)

end Patty
