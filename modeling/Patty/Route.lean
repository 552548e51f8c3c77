import Mathlib.Logic.Function.Basic
import Patty.Lib.Keyed
import Patty.Lib.Run
import Patty.Server.Clients

/-! # The route table (`route.c`)

A route is filed by the key of its destination, and the one with the all-zero destination is the default.
`patty_ax25_route_table_add` asks `patty_ax25_route_table_find` whether a destination has a route already,
and that one falls back to the default: once there is a default route, none can be added
(`routeMap_iff`). -/

namespace Patty

/-! ## The table -/

/-- `patty_ax25_route_table_add`, with a dictionary that always has room. -/
def routeAdd (routes : Dict UInt32 Route) (route : Route) : Except Errno (Dict UInt32 Route) :=
  if (routeFind routes route.dest).isSome then .error .eexist
  else .ok (routes.insert (hashAddr route.dest) route)

/-- `patty_ax25_route_table_delete`, which fails when there is no such route. -/
def routeDelete (routes : Dict UInt32 Route) (dest : Addr) : Option (Dict UInt32 Route) :=
  if hashAddr dest ∈ routes then some (routes.erase (hashAddr dest)) else none

instance : DecidableRel Addr.Same := fun a b =>
  inferInstanceAs (Decidable (a.callsign = b.callsign ∧ addrSsidNumber a.ssid = addrSsidNumber b.ssid))

/-! ## Calls on the table -/

inductive RouteCall
  | add (route : Route)
  | delete (dest : Addr)

def RouteCall.dest : RouteCall → Addr
  | .add route => route.dest
  | .delete dest => dest

/-- The table, and by their destinations the routes that were added and not deleted since. -/
structure Routed where
  table : Dict UInt32 Route
  named : Addr → Option Route

namespace Routed

def empty : Routed := ⟨∅, fun _ => none⟩

def call (s : Routed) : RouteCall → Routed
  | .add route =>
    match routeAdd s.table route with
    | .ok table => ⟨table, putNamed Addr.Same s.named route.dest (some route)⟩
    | .error _ => s
  | .delete dest => ⟨(routeDelete s.table dest).getD s.table, putNamed Addr.Same s.named dest none⟩

/-- `find` answers with the route of the destination, or else with the default route. -/
def Finds (D : Set Addr) (s : Routed) : Prop :=
  ∀ dest ∈ D, routeFind s.table dest = (s.named dest).or (s.named .zero)

/-- `add` succeeds when the destination has no route, and only then. -/
def AddsNew (s : Routed) : RouteCall → Prop
  | .add route => (∃ table, routeAdd s.table route = .ok table) ↔ s.named route.dest = none
  | .delete _ => True

/-- A route is added while there is no default route, or to a destination that has a route. -/
def NoDefault (s : Routed) : RouteCall → Prop
  | .add route => s.named .zero = none ∨ (s.named route.dest).isSome
  | .delete _ => True

end Routed

/-- A call about one of the destinations in `D`. -/
def RouteStep (D : Set Addr) (s : Routed) (c : RouteCall) (s' : Routed) : Prop :=
  c.dest ∈ D ∧ s' = s.call c

/-- The table is a map with a default throughout a sequence of calls. -/
def RouteMap (D : Set Addr) (l : List (RouteCall × Routed)) : Prop :=
  Routed.empty.Finds D ∧ Each (fun s c s' => s.AddsNew c ∧ s'.Finds D) Routed.empty l

/-! ## What is filed -/

variable {D : Set Addr} {s s' : Routed} {t : Dict UInt32 Route} {m : Addr → Option Route} {route : Route}
  {dest : Addr} {c : RouteCall}

theorem routeFind_eq (t : Dict UInt32 Route) (dest : Addr) :
    routeFind t dest = (t.lookup (hashAddr dest)).or (t.lookup (hashAddr .zero)) := by
  rw [routeFind]
  cases t.lookup (hashAddr dest) <;> rfl

theorem files_find (h : Files hashAddr D t m) (hzero : .zero ∈ D) (hd : dest ∈ D) :
    routeFind t dest = (m dest).or (m .zero) := by
  rw [routeFind_eq, h dest hd, h .zero hzero]

theorem files_add (h : Files hashAddr D t m) (hzero : .zero ∈ D) (hd : route.dest ∈ D) :
    (∃ t', routeAdd t route = .ok t') ↔ m route.dest = none ∧ m .zero = none := by
  rw [routeAdd, files_find h hzero hd]
  cases m route.dest <;> cases m .zero <;> simp

theorem routeAdd_eq_ok {t' : Dict UInt32 Route} (h : routeAdd t route = .ok t') :
    t' = t.insert (hashAddr route.dest) route := by
  rw [routeAdd] at h
  split at h <;> cases h
  rfl

theorem files_delete (h : Files hashAddr D t m) (hkey : Tells hashAddr Addr.Same D) (hd : dest ∈ D) :
    Files hashAddr D ((routeDelete t dest).getD t) (putNamed Addr.Same m dest none) := by
  rw [routeDelete]
  split
  next => exact h.erase hkey hd
  next habsent =>
    intro e he
    rw [Option.getD_none, h e he, putNamed]
    split
    next heq =>
      rw [h.mem_iff hd] at habsent
      rw [← h e he, (hkey e he dest hd).mpr heq, h dest hd]
      simpa using habsent
    next => rfl

theorem files_call (h : Files hashAddr D s.table s.named) (hkey : Tells hashAddr Addr.Same D)
    (hd : c.dest ∈ D) : Files hashAddr D (s.call c).table (s.call c).named := by
  cases c with
  | add route =>
    rw [Routed.call]
    split
    next table htable =>
      rw [routeAdd_eq_ok htable]
      exact h.insert hkey hd route
    next => exact h
  | delete dest => exact files_delete h hkey hd

theorem addsNew_iff (h : Files hashAddr D s.table s.named) (hzero : .zero ∈ D) (hd : c.dest ∈ D) :
    s.AddsNew c ↔ s.NoDefault c := by
  cases c with
  | add route =>
    rw [Routed.AddsNew, Routed.NoDefault, files_add h hzero hd]
    cases s.named route.dest <;> cases s.named .zero <;> simp
  | delete => exact Iff.rfl

theorem files_step (hkey : Tells hashAddr Addr.Same D) (h : Files hashAddr D s.table s.named)
    (hs : RouteStep D s c s') : Files hashAddr D s'.table s'.named := by
  obtain ⟨hd, rfl⟩ := hs
  exact files_call h hkey hd

theorem files_run (hkey : Tells hashAddr Addr.Same D)
    (hs : Run (RouteStep D) (fun _ _ => True) Routed.empty s) : Files hashAddr D s.table s.named :=
  hs.invariant (I := fun s => Files hashAddr D s.table s.named)
    (fun _ _ _ h _ hst => files_step hkey h hst) Files.empty

theorem routeMap_trace (hkey : Tells hashAddr Addr.Same D) (hzero : .zero ∈ D)
    {l : List (RouteCall × Routed)} (hl : Trace (RouteStep D) Routed.empty l) :
    RouteMap D l ↔ Meets Routed.NoDefault Routed.empty l := by
  have hfinds : ∀ s : Routed, Files hashAddr D s.table s.named → s.Finds D :=
    fun s h dest hd => files_find h hzero hd
  rw [RouteMap, and_iff_right (hfinds _ Files.empty)]
  apply hl.each_iff (I := fun s => Files hashAddr D s.table s.named) _ Files.empty
  intro s c s' h hst
  have h' := files_step hkey h hst
  exact ⟨h', by rw [and_iff_left (hfinds s' h'), addsNew_iff h hzero hst.1]⟩

/-! ## The order of additions -/

/-- The table after an attempt to add a route. -/
def routeTry (t : Dict UInt32 Route) (route : Route) : Dict UInt32 Route :=
  match routeAdd t route with
  | .ok t' => t'
  | .error _ => t

/-- Whatever order the routes are added in, the table comes to be the same map. -/
def OrderFree (t : Dict UInt32 Route) (routes : List Route) : Prop :=
  ∀ routes' : List Route, routes'.Perm routes →
    ∀ key, (routes'.foldl routeTry t).lookup key = (routes.foldl routeTry t).lookup key

/-- The routes have distinct destinations. -/
def DistinctDests (routes : List Route) : Prop :=
  routes.Pairwise fun a b => ¬ a.dest.Same b.dest

/-- There is a default route already, or none among the routes, or the routes to stations are not new. -/
def NoneBlocked (m : Addr → Option Route) (routes : List Route) : Prop :=
  (m .zero).isSome ∨ (∀ r ∈ routes, ¬ r.dest.Same .zero) ∨
    ∀ r ∈ routes, r.dest.Same .zero ∨ (m r.dest).isSome

def Route.key (route : Route) : UInt32 := hashAddr route.dest

variable {routes : List Route}

theorem routeTry_eq (t : Dict UInt32 Route) (route : Route) :
    routeTry t route =
      if (t.lookup (hashAddr route.dest)).isSome || (t.lookup (hashAddr .zero)).isSome then t
      else t.insert (hashAddr route.dest) route := by
  rw [routeTry, routeAdd, routeFind_eq, Option.isSome_or]
  by_cases h : (t.lookup (hashAddr route.dest)).isSome || (t.lookup (hashAddr .zero)).isSome
  · rw [if_pos h, if_pos h]
  · rw [if_neg h, if_neg h]

theorem lookup_routeTry (t : Dict UInt32 Route) (route : Route) :
    (routeTry t route).lookup = putNew Route.key (hashAddr .zero) t.lookup route := by
  funext key
  rw [routeTry_eq, putNew, Route.key]
  split
  next => rfl
  next =>
    by_cases hkey : key = hashAddr route.dest
    · rw [hkey, AList.lookup_insert, Function.update_self]
    · rw [AList.lookup_insert_ne hkey, Function.update_of_ne hkey]

theorem lookup_foldl_routeTry (t : Dict UInt32 Route) (routes : List Route) :
    (routes.foldl routeTry t).lookup = routes.foldl (putNew Route.key (hashAddr .zero)) t.lookup := by
  induction routes generalizing t with
  | nil => rfl
  | cons route routes ih => rw [List.foldl_cons, ih, lookup_routeTry, List.foldl_cons]

/-- Routes with distinct destinations have distinct keys. -/
theorem DistinctDests.eq_of_key (h : DistinctDests routes) (hkey : Tells hashAddr Addr.Same D)
    (hD : ∀ r ∈ routes, r.dest ∈ D) : ∀ a ∈ routes, ∀ b ∈ routes, a.key = b.key → a = b := by
  intro a ha b hb hab
  have : Std.Symm fun a b : Route => ¬ a.dest.Same b.dest := ⟨fun _ _ hn hs => hn hs.symm⟩
  by_contra hne
  exact h.forall ha hb hne ((hkey _ (hD a ha) _ (hD b hb)).mp hab)

theorem orderFree_iff (h : Files hashAddr D t m) (hkey : Tells hashAddr Addr.Same D) (hzero : .zero ∈ D)
    (hdist : DistinctDests routes) (hD : ∀ r ∈ routes, r.dest ∈ D) :
    OrderFree t routes ↔ NoneBlocked m routes := by
  have hsame : ∀ r ∈ routes, (r.key = hashAddr .zero ↔ r.dest.Same .zero) :=
    fun r hr => hkey _ (hD r hr) _ hzero
  have hnew : ∀ r ∈ routes, t.lookup r.key = m r.dest := fun r hr => h _ (hD r hr)
  have hmaps : OrderFree t routes ↔ ∀ routes' : List Route, routes'.Perm routes →
      routes'.foldl (putNew Route.key (hashAddr .zero)) t.lookup =
        routes.foldl (putNew Route.key (hashAddr .zero)) t.lookup := by
    simp only [OrderFree, ← lookup_foldl_routeTry, funext_iff]
  rw [hmaps, foldl_putNew_iff (hdist.eq_of_key hkey hD), NoneBlocked, h .zero hzero]
  refine or_congr_right (or_congr ?_ ?_)
  · exact forall₂_congr fun r hr => not_congr (hsame r hr)
  · exact forall₂_congr fun r hr => by rw [hsame r hr, hnew r hr]

/-! ## A map with a default -/

/-- For all sequences of calls about destinations that the key tells apart: the table is a map with a
default exactly when each new route is added while there is no default route. Routes to distinct
destinations come to the same table in every order exactly when no default route among them can block
one that is new. -/
theorem routeMap_iff (hkey : Tells hashAddr Addr.Same D) (hzero : .zero ∈ D) :
    (∀ l, Trace (RouteStep D) Routed.empty l →
      (RouteMap D l ↔ Meets Routed.NoDefault Routed.empty l)) ∧
    ∀ s, Run (RouteStep D) (fun _ _ => True) Routed.empty s →
      ∀ routes, DistinctDests routes → (∀ r ∈ routes, r.dest ∈ D) →
        (OrderFree s.table routes ↔ NoneBlocked s.named routes) :=
  ⟨fun _ hl => routeMap_trace hkey hzero hl,
    fun _ hs _ hdist hD => orderFree_iff (files_run hkey hs) hkey hzero hdist hD⟩

/-- The run that the calls make. -/
def Routed.run : Routed → List RouteCall → List (RouteCall × Routed)
  | _, [] => []
  | s, c :: cs => (c, s.call c) :: Routed.run (s.call c) cs

theorem Routed.trace_run {cs : List RouteCall} (h : ∀ c ∈ cs, c.dest ∈ D) (s : Routed) :
    Trace (RouteStep D) s (s.run cs) := by
  induction cs generalizing s with
  | nil => exact .nil
  | cons c cs ih =>
    rw [List.forall_mem_cons] at h
    exact .cons ⟨h.1, rfl⟩ (ih h.2 _)

/-- The callsign `AAAAAA`. -/
def stationA : Addr := ⟨fun _ => 0x82, 0⟩

def routeTo (dest : Addr) : Route := ⟨0, dest, fun _ => .zero, 0⟩

theorem tells_stationA : Tells hashAddr Addr.Same {Addr.zero, stationA} := by
  have hne : hashAddr .zero ≠ hashAddr stationA := by decide
  have hnot : ¬ Addr.zero.Same stationA := by decide
  rintro a (rfl | rfl) b (rfl | rfl)
  · exact iff_of_true rfl (.refl _)
  · exact iff_of_false hne hnot
  · exact iff_of_false hne.symm fun h => hnot h.symm
  · exact iff_of_true rfl (.refl _)

/-- A route that is added before the default route is found, and so is the default route. -/
theorem routeMap_stationA :
    RouteMap {Addr.zero, stationA} (Routed.empty.run [.add (routeTo stationA), .add (routeTo .zero)]) :=
  ((routeMap_iff tells_stationA (.inl rfl)).1 _
    (Routed.trace_run (by simp [RouteCall.dest, routeTo]) _)).mpr
    ⟨.inl rfl, .inl (by decide), trivial⟩

/-- After the default route no route to a station can be added, so that the order matters. -/
theorem not_routeMap_default :
    Tells hashAddr Addr.Same {Addr.zero, stationA} ∧
    Trace (RouteStep {Addr.zero, stationA}) Routed.empty
      (Routed.empty.run [.add (routeTo .zero), .add (routeTo stationA)]) ∧
    ¬ RouteMap {Addr.zero, stationA}
      (Routed.empty.run [.add (routeTo .zero), .add (routeTo stationA)]) ∧
    ¬ OrderFree ∅ [routeTo .zero, routeTo stationA] := by
  have htrace : Trace (RouteStep {Addr.zero, stationA}) Routed.empty
      (Routed.empty.run [.add (routeTo .zero), .add (routeTo stationA)]) :=
    Routed.trace_run (by simp [RouteCall.dest, routeTo]) _
  refine ⟨tells_stationA, htrace, ?_, ?_⟩
  · rw [routeMap_trace tells_stationA (.inl rfl) htrace]
    rintro ⟨-, hnone | hsome, -⟩
    · exact absurd (congrArg Option.isSome hnone) (by decide)
    · exact absurd hsome (by decide)
  · intro h
    have hswap := h [routeTo stationA, routeTo .zero] (.swap ..) (hashAddr stationA)
    exact absurd (congrArg Option.isSome hswap) (by decide)

end Patty
