import WireSchema.Proofs.Outcome
import WireSchema.Proofs.Schema.Sorted
import WireSchema.Route.Basic

/-
  The services that routes make up.

  Every route is one endpoint of one service.  The keys of a
  table are in order, and so are the services and the methods
  of each service.

  Key definitions include:
    * `RouteTable.IsSorted`
    * `RouteTable.Serves`
-/

namespace WireSchema

namespace RouteTable

variable {t : RouteTable}

------------------------------------------------------------
-- Tables
------------------------------------------------------------

/- The keys of a table are distinct and in order. -/
def IsSorted (t : RouteTable) : Prop :=
  t.entries.Pairwise fun a b => a.1 < b.1

theorem mem_of_mem_insertRoute
    {key : String}
    {r : Route}
    {e : String × Route}
    {entries : List (String × Route)}
    (h : e ∈ insertRoute key r entries) :
    e.1 = key ∨ e ∈ entries := by
  induction entries with
  | nil =>
      rw [insertRoute, List.mem_singleton] at h
      left
      rw [h]
  | cons f rest ih =>
      unfold insertRoute at h
      split at h
      · rcases List.mem_cons.mp h with rfl | h
        · exact .inl rfl
        · exact .inr h
      · split at h
        · rcases List.mem_cons.mp h with rfl | h
          · exact .inl rfl
          · exact .inr (List.mem_cons_of_mem f h)
        · rcases List.mem_cons.mp h with rfl | h
          · exact .inr List.mem_cons_self
          · rcases ih h with h | h
            · exact .inl h
            · exact .inr (List.mem_cons_of_mem f h)

theorem pairwise_insertRoute
    {key : String}
    {r : Route}
    {entries : List (String × Route)}
    (h : entries.Pairwise fun a b => a.1 < b.1) :
    (insertRoute key r entries).Pairwise fun a b =>
      a.1 < b.1 := by
  induction entries with
  | nil => exact List.pairwise_singleton _ _
  | cons f rest ih =>
      have hParts := List.pairwise_cons.mp h
      unfold insertRoute
      split
      · next hBefore =>
          rw [List.pairwise_cons]
          refine ⟨?_, h⟩
          intro e he
          rcases List.mem_cons.mp he with rfl | he
          · exact hBefore
          · exact lt_trans hBefore (hParts.1 e he)
      · next hNotBefore =>
          split
          · next hSame =>
              rw [List.pairwise_cons]
              refine ⟨?_, hParts.2⟩
              intro e he
              rw [hSame]
              exact hParts.1 e he
          · next hOther =>
              rw [List.pairwise_cons]
              refine ⟨?_, ih hParts.2⟩
              intro e he
              rcases mem_of_mem_insertRoute he with hKey | he
              · rw [hKey]
                exact lt_of_le_of_ne (not_lt.mp hNotBefore)
                  (Ne.symm hOther)
              · exact hParts.1 e he

/- A table that is made of routes is sorted. -/
theorem isSorted_ofList (routes : List (String × Route)) :
    (ofList routes).IsSorted := by
  have hFold : ∀ acc : List (String × Route),
      (acc.Pairwise fun a b => a.1 < b.1) →
      (routes.foldl (fun acc e => insertRoute e.1 e.2 acc)
        acc).Pairwise fun a b => a.1 < b.1 := by
    induction routes with
    | nil => exact fun _ h => h
    | cons e rest ih =>
        intro acc h
        exact ih _ (pairwise_insertRoute h)
  exact hFold [] List.Pairwise.nil

------------------------------------------------------------
-- Keys
------------------------------------------------------------

/- The parts of a key that has two names. -/
theorem splitKey_eq_ok
    {key service method : String}
    (h : splitKey key = .ok (service, method)) :
    key = service ++ "." ++ method
      ∧ '.' ∉ service.toList ∧ service ≠ "" ∧ method ≠ "" := by
  unfold splitKey at h
  split at h
  · next s m hSplit =>
      split at h
      · cases h
      · next hNames =>
          cases h
          unfold Text.splitFirstString at hSplit
          rcases Option.map_eq_some_iff.mp hSplit with
            ⟨⟨before, after⟩, hCut, hParts⟩
          cases hParts
          have hKey := Text.append_of_splitFirst hCut
          have hDot := Text.notMem_of_splitFirst hCut
          simp only [Bool.or_eq_true, String.isEmpty_iff,
            not_or] at hNames
          refine ⟨?_, by simpa using hDot, hNames.1, hNames.2⟩
          apply String.toList_inj.mp
          simpa using hKey
  · cases h

/- Keys of one service are in the order of their methods. -/
theorem method_lt_of_key_lt
    {service method method' : String}
    (h : service ++ "." ++ method < service ++ "." ++ method') :
    method < method' := by
  rw [String.lt_iff_toList_lt] at h ⊢
  simp only [String.toList_append] at h
  have hCancel : ∀ s a b : List Char, s ++ a < s ++ b → a < b := by
    intro s a b hab
    induction s with
    | nil => exact hab
    | cons c s ih =>
        rw [List.cons_append, List.cons_append,
          List.cons_lt_cons_iff] at hab
        rcases hab with hab | hab
        · exact absurd hab (lt_irrefl c)
        · exact ih hab.2
  exact hCancel _ _ _ h

/- The names that the routes of a table are taken under. -/
theorem named_eq_ok
    {ns : List NamedRoute}
    (h : t.named = .ok ns) :
    ns.map (fun n => (n.key, n.route)) = t.entries
      ∧ ∀ n ∈ ns,
        splitKey n.key = .ok (n.service, n.method) := by
  have hEach := forall₂_of_mapM_eq_ok h
  clear h
  generalize t.entries = entries at hEach
  induction hEach with
  | nil => simp
  | @cons e n rest more hFirst _ ih =>
      rcases eq_ok_of_bind hFirst with ⟨names, hSplit, hFirst⟩
      cases hFirst
      refine ⟨by rw [List.map_cons, ih.1], ?_⟩
      intro m hm
      rcases List.mem_cons.mp hm with rfl | hm
      · exact hSplit
      · exact ih.2 m hm

------------------------------------------------------------
-- Groups
------------------------------------------------------------

/- Elements, class by class, are the elements of the classes. -/
theorem perm_flatMap_filter
    {α β : Type}
    [DecidableEq β]
    (f : α → β)
    (xs : List α)
    {classes : List β}
    (hDistinct : classes.Nodup) :
    (classes.flatMap fun k => xs.filter fun x => f x == k).Perm
      (xs.filter fun x => classes.contains (f x)) := by
  induction classes with
  | nil => simp
  | cons k rest ih =>
      rw [List.nodup_cons] at hDistinct
      rw [List.flatMap_cons]
      have hOfClass :
          (xs.filter fun x => (k :: rest).contains (f x)).filter
              (fun x => f x == k) =
            xs.filter fun x => f x == k := by
        rw [List.filter_filter]
        apply List.filter_congr
        intro x _
        by_cases hx : f x = k
        · simp [hx]
        · simp [hx]
      have hOfRest :
          (xs.filter fun x => (k :: rest).contains (f x)).filter
              (fun x => !(f x == k)) =
            xs.filter fun x => rest.contains (f x) := by
        rw [List.filter_filter]
        apply List.filter_congr
        intro x _
        by_cases hx : f x = k
        · simp [hx, hDistinct.1]
        · simp [hx]
      have hSplit := List.filter_append_perm
        (fun x => f x == k)
        (xs.filter fun x => (k :: rest).contains (f x))
      rw [hOfClass, hOfRest] at hSplit
      exact ((ih hDistinct.2).append_left _).trans hSplit

/-
  Services that stand for the routes of a table, each route
  for one endpoint, all in order.
-/
structure Serves
    (t : RouteTable)
    (known : WellKnown)
    (services : List Service) : Prop where
  ordered : services.Pairwise fun v w => v.name < w.name
  complete :
    (services.flatMap fun v =>
      v.endpoints.map Endpoint.fullName).Perm
        (t.entries.map Prod.fst)
  methods :
    ∀ v ∈ services,
      v.endpoints.Pairwise fun e f => e.name < f.name
  keys :
    ∀ v ∈ services, ∀ e ∈ v.endpoints,
      e.fullName = v.name ++ "." ++ e.name
        ∧ '.' ∉ v.name.toList
  routes :
    ∀ v ∈ services, ∀ e ∈ v.endpoints,
      ∃ r, (e.fullName, r) ∈ t.entries
        ∧ e = endpoint known
          { service := v.name, method := e.name
            key := e.fullName, route := r }

/- The services that named routes are grouped to. -/
theorem mem_group
    {known : WellKnown}
    {ns : List NamedRoute}
    {v : Service}
    (h : v ∈ group known ns) :
    v.endpoints =
      (ns.filter fun n => n.service == v.name).map
        (endpoint known) := by
  unfold group at h
  rcases List.mem_map.mp h with ⟨name, -, rfl⟩
  rfl

/- Every named route is in one of the groups. -/
theorem perm_group (known : WellKnown) (ns : List NamedRoute) :
    ((group known ns).flatMap fun v =>
      v.endpoints.map Endpoint.fullName).Perm
        (ns.map NamedRoute.key) := by
  have hNodup := nodup_sortTexts (ns.map NamedRoute.service)
  have hPerm :=
    perm_flatMap_filter NamedRoute.service ns hNodup
  have hAll :
      (ns.filter fun n =>
        (sortTexts (ns.map NamedRoute.service)).contains
          n.service) = ns := by
    rw [List.filter_eq_self]
    intro n hn
    rw [List.contains_iff_mem, mem_sortTexts]
    exact List.mem_map_of_mem hn
  rw [hAll] at hPerm
  have hKeys := hPerm.map NamedRoute.key
  rw [List.map_flatMap] at hKeys
  have hSame :
      ((group known ns).flatMap fun v =>
        v.endpoints.map Endpoint.fullName) =
      (sortTexts (ns.map NamedRoute.service)).flatMap fun name =>
        (ns.filter fun n => n.service == name).map
          NamedRoute.key := by
    unfold group
    simp only [List.flatMap_map, List.map_map]
    rfl
  rw [hSame]
  exact hKeys

/- Every endpoint of a group is one of a named route. -/
theorem exists_route_of_mem_group
    {known : WellKnown}
    {ns : List NamedRoute}
    {v : Service}
    {e : Endpoint}
    (hv : v ∈ group known ns)
    (he : e ∈ v.endpoints) :
    ∃ n ∈ ns, n.service = v.name ∧ endpoint known n = e := by
  rw [mem_group hv] at he
  rcases List.mem_map.mp he with ⟨n, hn, hEndpoint⟩
  rw [List.mem_filter, beq_iff_eq] at hn
  exact ⟨n, hn.1, hn.2, hEndpoint⟩

/- Every named route is an endpoint of one of the groups. -/
theorem exists_mem_group
    {ns : List NamedRoute}
    {n : NamedRoute}
    (known : WellKnown)
    (hn : n ∈ ns) :
    ∃ v ∈ group known ns,
      v.name = n.service ∧ endpoint known n ∈ v.endpoints := by
  have hName : n.service ∈ sortTexts (ns.map NamedRoute.service) :=
    (mem_sortTexts _ _).mpr (List.mem_map_of_mem hn)
  refine ⟨_, List.mem_map_of_mem hName, rfl, ?_⟩
  apply List.mem_map_of_mem
  simp [hn]

/- No group is without a route. -/
theorem exists_service_of_mem_group
    {known : WellKnown}
    {ns : List NamedRoute}
    {v : Service}
    (hv : v ∈ group known ns) : ∃ n ∈ ns, n.service = v.name := by
  rcases List.mem_map.mp hv with ⟨name, hName, rfl⟩
  exact List.mem_map.mp ((mem_sortTexts _ _).mp hName)

/- The services of a sorted table stand for its routes. -/
theorem serves_of_services_eq_ok
    {known : WellKnown}
    {services : List Service}
    (hSorted : t.IsSorted)
    (h : t.services known = .ok services) :
    t.Serves known services := by
  unfold RouteTable.services at h
  cases hNamed : t.named with
  | error f =>
      rw [hNamed] at h
      cases h
  | ok ns =>
      rw [hNamed] at h
      cases h
      have hParts := named_eq_ok hNamed
      have hKeys :
          ns.map NamedRoute.key = t.entries.map Prod.fst := by
        rw [← hParts.1]
        simp
      have hInOrder : ns.Pairwise fun n m => n.key < m.key := by
        unfold IsSorted at hSorted
        rw [← hParts.1, List.pairwise_map] at hSorted
        exact hSorted
      have hNames : ∀ n ∈ ns,
          n.key = n.service ++ "." ++ n.method
            ∧ '.' ∉ n.service.toList := by
        intro n hn
        have hSplit := splitKey_eq_ok (hParts.2 n hn)
        exact ⟨hSplit.1, hSplit.2.1⟩
      constructor
      case ordered =>
        unfold group
        rw [List.pairwise_map]
        exact pairwise_sortTexts _
      case complete =>
        rw [← hKeys]
        exact perm_group known ns
      case methods =>
        intro v hv
        rw [mem_group hv, List.pairwise_map]
        apply (hInOrder.filter _).imp_of_mem
        intro n m hn hm hLt
        rw [List.mem_filter, beq_iff_eq] at hn hm
        rw [(hNames n hn.1).1, (hNames m hm.1).1, hn.2,
          hm.2] at hLt
        exact method_lt_of_key_lt hLt
      case keys =>
        intro v hv e he
        rcases exists_route_of_mem_group hv he with
          ⟨n, hn, hService, rfl⟩
        rw [← hService]
        exact hNames n hn
      case routes =>
        intro v hv e he
        rcases exists_route_of_mem_group hv he with
          ⟨n, hn, hService, rfl⟩
        refine ⟨n.route, ?_, ?_⟩
        · rw [← hParts.1]
          exact List.mem_map_of_mem
            (f := fun n : NamedRoute => (n.key, n.route)) hn
        · rw [← hService]
          rfl

end RouteTable

end WireSchema
