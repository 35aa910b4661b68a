import GrammarLint.Proofs.Registration
import Mathlib.Data.List.Nodup
import Mathlib.Data.List.Perm.Basic

/-!
# Sites of a tree

The nodes of a tree in preorder, each with the way down to it.  A walk enters and leaves
every site once, so that no check hears of anything twice.
-/

namespace GrammarLint

/-! ## Sites in preorder -/

mutual

def Node.sites (above : List (Node × Nat)) : Node → List Site
  | node@⟨_, _, _, _, _, children⟩ => ⟨node, above⟩ :: sitesFrom above node 0 children

def Node.sitesFrom (above : List (Node × Nat)) (parent : Node) (index : Nat) :
    List Node → List Site
  | [] => []
  | child :: children =>
      sites ((parent, index) :: above) child ++ sitesFrom above parent (index + 1) children

end

def Source.sites (source : Source) : List Site :=
  source.root.sites []

namespace Node

mutual

theorem map_node_sites : (node : Node) → (above : List (Node × Nat)) →
    (node.sites above).map Site.node = node.preorder
  | ⟨kind, text, line, column, tokenIndex, children⟩, above => by
      rw [preorder_eq, sites, List.map_cons, map_node_sitesFrom children]

theorem map_node_sitesFrom : (nodes : List Node) → (above : List (Node × Nat)) →
    (parent : Node) → (index : Nat) →
      (sitesFrom above parent index nodes).map Site.node = nodes.flatMap preorder
  | [], _, _, _ => rfl
  | node :: nodes, above, parent, index => by
      rw [sitesFrom, List.map_append, map_node_sites node, map_node_sitesFrom nodes,
        List.flatMap_cons]

end

mutual

theorem suffix_of_mem_sites : (node : Node) → (above : List (Node × Nat)) →
    ∀ site ∈ node.sites above, above <:+ site.above
  | ⟨kind, text, line, column, tokenIndex, children⟩, above => by
      intro site hsite
      rw [sites] at hsite
      rcases List.mem_cons.1 hsite with rfl | hbelow
      · exact List.suffix_rfl
      · obtain ⟨place, -, hsuffix⟩ := suffix_of_mem_sitesFrom children above _ 0 site hbelow
        exact (List.suffix_cons _ _).trans hsuffix

theorem suffix_of_mem_sitesFrom : (nodes : List Node) → (above : List (Node × Nat)) →
    (parent : Node) → (index : Nat) → ∀ site ∈ sitesFrom above parent index nodes,
      ∃ place ≥ index, (parent, place) :: above <:+ site.above
  | [], _, _, _ => by simp [sitesFrom]
  | node :: nodes, above, parent, index => by
      intro site hsite
      rw [sitesFrom] at hsite
      rcases List.mem_append.1 hsite with hfirst | hlater
      · exact ⟨index, Nat.le_refl _, suffix_of_mem_sites node _ site hfirst⟩
      · obtain ⟨place, hplace, hsuffix⟩ :=
          suffix_of_mem_sitesFrom nodes above parent (index + 1) site hlater
        exact ⟨place, by omega, hsuffix⟩

end

theorem place_unique {way above : List (Node × Nat)} {parent : Node} {index place : Nat}
    (hindex : (parent, index) :: above <:+ way) (hplace : (parent, place) :: above <:+ way) :
    index = place := by
  have hlength : ((parent, index) :: above).length = ((parent, place) :: above).length := rfl
  have hsame := List.IsSuffix.eq_of_length
    (List.suffix_of_suffix_length_le hindex hplace (Nat.le_of_eq hlength)) hlength
  simpa using hsame

mutual

theorem nodup_sites : (node : Node) → (above : List (Node × Nat)) → (node.sites above).Nodup
  | ⟨kind, text, line, column, tokenIndex, children⟩, above => by
      rw [sites, List.nodup_cons]
      refine ⟨fun hbelow => ?_, nodup_sitesFrom children above _ 0⟩
      obtain ⟨place, -, hsuffix⟩ := suffix_of_mem_sitesFrom children above _ 0 _ hbelow
      have hlonger := hsuffix.length_le
      simp only [List.length_cons] at hlonger
      omega

theorem nodup_sitesFrom : (nodes : List Node) → (above : List (Node × Nat)) →
    (parent : Node) → (index : Nat) → (sitesFrom above parent index nodes).Nodup
  | [], _, _, _ => List.nodup_nil
  | node :: nodes, above, parent, index => by
      rw [sitesFrom, List.nodup_append]
      refine ⟨nodup_sites node _, nodup_sitesFrom nodes above parent (index + 1), ?_⟩
      rintro site hfirst _ hlater rfl
      have hindex := suffix_of_mem_sites node _ site hfirst
      obtain ⟨place, hplace, hsuffix⟩ :=
        suffix_of_mem_sitesFrom nodes above parent (index + 1) site hlater
      have := place_unique hindex hsuffix
      omega

end

end Node

namespace Walker

/-! ## Calls for sites -/

section Visits

variable (subscribers : Kind → List Check) (source : Source)

def callsAt (notification : Site → Notification) (site : Site) : List (Check × Notification) :=
  (subscribers site.node.kind).map fun check => (check, notification site)

def callsFor (sites : List Site) : List (Check × Notification) :=
  sites.flatMap (callsAt subscribers (.enter source)) ++
    sites.flatMap (callsAt subscribers (.leave source))

theorem callsFor_append (sites others : List Site) :
    (callsFor subscribers source sites ++ callsFor subscribers source others).Perm
      (callsFor subscribers source (sites ++ others)) := by
  simp only [callsFor, List.flatMap_append, List.append_assoc]
  exact (List.perm_append_comm_assoc _ _ _).append_left _

mutual

theorem visit_perm : (node : Node) → (above : List (Node × Nat)) →
    (visit subscribers source above node).Perm (callsFor subscribers source (node.sites above))
  | ⟨kind, text, line, column, tokenIndex, children⟩, above => by
      let node : Node := ⟨kind, text, line, column, tokenIndex, children⟩
      have hbelow := visitAll_perm children above node 0
      have hall := (hbelow.append_left (callsFor subscribers source [⟨node, above⟩])).trans
        (callsFor_append subscribers source [⟨node, above⟩] _)
      rw [visit, Node.sites]
      refine List.Perm.trans ?_ hall
      simp only [callsFor, callsAt, List.flatMap_cons, List.flatMap_nil, List.append_nil,
        List.append_assoc]
      exact List.perm_append_comm.append_left _

theorem visitAll_perm : (nodes : List Node) → (above : List (Node × Nat)) →
    (parent : Node) → (index : Nat) →
      (visitAll subscribers source above parent index nodes).Perm
        (callsFor subscribers source (Node.sitesFrom above parent index nodes))
  | [], _, _, _ => .nil
  | node :: nodes, above, parent, index => by
      rw [visitAll, Node.sitesFrom]
      have hfirst := visit_perm node ((parent, index) :: above)
      have hlater := visitAll_perm nodes above parent (index + 1)
      exact (hfirst.append hlater).trans (callsFor_append subscribers source _ _)

end

variable {α : Type} {f : Check × Notification → List α}

mutual

theorem flatMap_visit (hleave : ∀ site : Site, ∀ check ∈ subscribers site.node.kind,
    f (check, .leave source site) = []) : (node : Node) → (above : List (Node × Nat)) →
      (visit subscribers source above node).flatMap f =
        ((node.sites above).flatMap (callsAt subscribers (.enter source))).flatMap f
  | ⟨kind, text, line, column, tokenIndex, children⟩, above => by
      let site : Site := ⟨⟨kind, text, line, column, tokenIndex, children⟩, above⟩
      have hleft : (callsAt subscribers (.leave source) site).flatMap f = [] := by
        rw [callsAt, List.flatMap_map]
        exact List.flatMap_eq_nil_iff.2 (hleave site)
      rw [visit, Node.sites, List.flatMap_append, List.flatMap_append,
        flatMap_visitAll hleave children, List.flatMap_cons, List.flatMap_append]
      change _ ++ (callsAt subscribers (.leave source) site).flatMap f = _
      rw [hleft, List.append_nil]
      rfl

theorem flatMap_visitAll (hleave : ∀ site : Site, ∀ check ∈ subscribers site.node.kind,
    f (check, .leave source site) = []) : (nodes : List Node) → (above : List (Node × Nat)) →
      (parent : Node) → (index : Nat) →
        (visitAll subscribers source above parent index nodes).flatMap f =
          ((Node.sitesFrom above parent index nodes).flatMap
            (callsAt subscribers (.enter source))).flatMap f
  | [], _, _, _ => rfl
  | node :: nodes, above, parent, index => by
      rw [visitAll, Node.sitesFrom, List.flatMap_append, flatMap_visit hleave node,
        flatMap_visitAll hleave nodes, List.flatMap_append, List.flatMap_append]

end

end Visits

/-! ## No call is made twice -/

section Distinct

variable {subscribers : Kind → List Check} {source : Source}

theorem nodup_recordOf {checks : List Check} (h : (checks.map Check.identity).Nodup)
    (notification : Notification) :
    ((checks.map fun check => (check, notification)).map recordOf).Nodup := by
  have hrecords : (checks.map fun check => (check, notification)).map recordOf =
      (checks.map Check.identity).map fun identity => ⟨identity, notification⟩ := by
    simp [recordOf]
  rw [hrecords]
  exact h.map fun first second hsame => (Call.mk.inj hsame).1

theorem notification_of_mem {notification : Site → Notification} {sites : List Site} {call : Call}
    (h : call ∈ (sites.flatMap (callsAt subscribers notification)).map recordOf) :
    ∃ site ∈ sites, call.notification = notification site := by
  simp only [callsAt, List.mem_map, List.mem_flatMap] at h
  obtain ⟨_, ⟨site, hsite, check, -, rfl⟩, rfl⟩ := h
  exact ⟨site, hsite, rfl⟩

theorem nodup_callsAt (h : ∀ kind, ((subscribers kind).map Check.identity).Nodup)
    {notification : Site → Notification} (hnotification : notification.Injective)
    {sites : List Site} (hsites : sites.Nodup) :
    ((sites.flatMap (callsAt subscribers notification)).map recordOf).Nodup := by
  induction sites with
  | nil => exact List.nodup_nil
  | cons site sites ih =>
      rw [List.nodup_cons] at hsites
      rw [List.flatMap_cons, List.map_append, List.nodup_append]
      refine ⟨nodup_recordOf (h _) _, ih hsites.2, ?_⟩
      rintro call hfirst _ hlater rfl
      have hhere : ∃ other ∈ [site], call.notification = notification other := by
        apply @notification_of_mem subscribers
        simpa using hfirst
      obtain ⟨other, hother, hsame⟩ := notification_of_mem hlater
      simp only [List.mem_singleton, exists_eq_left] at hhere
      exact hsites.1 (hnotification (hhere.symm.trans hsame) ▸ hother)

theorem ofNode_of_mem_callsFor {sites : List Site} {call : Call}
    (h : call ∈ (callsFor subscribers source sites).map recordOf) :
    ofNode call.notification = true := by
  rw [callsFor, List.map_append, List.mem_append] at h
  rcases h with h | h
  · obtain ⟨site, -, hcall⟩ := notification_of_mem h
    rw [hcall]
    rfl
  · obtain ⟨site, -, hcall⟩ := notification_of_mem h
    rw [hcall]
    rfl

theorem nodup_callsFor (h : ∀ kind, ((subscribers kind).map Check.identity).Nodup)
    {sites : List Site} (hsites : sites.Nodup) :
    ((callsFor subscribers source sites).map recordOf).Nodup := by
  rw [callsFor, List.map_append, List.nodup_append]
  refine ⟨nodup_callsAt h (fun _ _ hsame => (Notification.enter.inj hsame).2) hsites,
    nodup_callsAt h (fun _ _ hsame => (Notification.leave.inj hsame).2) hsites, ?_⟩
  rintro call hentered _ hleft rfl
  obtain ⟨site, -, hsite⟩ := notification_of_mem hentered
  obtain ⟨other, -, hother⟩ := notification_of_mem hleft
  cases hsite.symm.trans hother

end Distinct

theorem Consistent.nodup_order {walker : Walker} (h : Consistent walker) (source : Source) :
    ((walker.order source).map recordOf).Nodup := by
  have hvisit := (visit_perm walker.subscribers source source.root []).map recordOf
  have hnode : ∀ call ∈ (visit walker.subscribers source [] source.root).map recordOf,
      ofNode call.notification = true :=
    fun call hcall => ofNode_of_mem_callsFor (hvisit.mem_iff.1 hcall)
  have hwalk {notification : Notification} {call : Call}
      (hcall : call ∈ (walker.checks.map fun check => (check, notification)).map recordOf) :
      call.notification = notification := by
    simp only [List.mem_map] at hcall
    obtain ⟨_, ⟨check, -, rfl⟩, rfl⟩ := hcall
    rfl
  rw [order, List.map_append, List.map_append, List.nodup_append, List.nodup_append]
  refine ⟨⟨nodup_recordOf h.distinct _, ?_, ?_⟩, nodup_recordOf h.distinct _, ?_⟩
  · exact hvisit.nodup_iff.2 (nodup_callsFor h.nodup_subscribers (Node.nodup_sites _ _))
  · rintro call hbegin _ hvisited rfl
    have := hnode call hvisited
    rw [hwalk hbegin] at this
    cases this
  · rintro call hearlier _ hfinish rfl
    rcases List.mem_append.1 hearlier with hbegin | hvisited
    · cases (hwalk hbegin).symm.trans (hwalk hfinish)
    · have := hnode call hvisited
      rw [hwalk hfinish] at this
      cases this

end Walker

end GrammarLint
