import TreeSelector.Proofs.Grammar.Canonical
import TreeSelector.Proofs.Reading.Pulls
import TreeSelector.Proofs.Tree.Family

/-!
# Windows are slices

On a host that nothing but detached subtrees keeps from being read, a walk comes upon the
nodes of a list that depends on the connector and on the node alone, and its window cuts a
slice out of that list.
-/

namespace TreeSelector

open Reading (Gives)

section Slices

variable {α : Type} {window : Window}

theorem Window.isOrdered_iff : window.IsOrdered ↔ ∀ max ∈ window.max, window.min ≤ max := by
  unfold IsOrdered
  cases window.max <;> simp

/-- Those items of a list whose offsets lie in the window. -/
def Window.slice (window : Window) (items : List α) : List α :=
  match window.max with
  | some max => (items.drop window.min.toNat).take (max.toNat - window.min.toNat + 1)
  | none => items.drop window.min.toNat

@[simp]
theorem Window.slice_unbounded (items : List α) : unbounded.slice items = items := rfl

@[simp]
theorem Window.slice_nil (window : Window) : window.slice ([] : List α) = [] := by
  unfold slice
  split <;> simp

/-- What a walk cuts out that begins at the first offset of its window. -/
theorem Window.slice_eq_take_drop (ordered : window.IsOrdered) (items : List α) :
    window.slice items =
      (items.drop window.min.toNat).take
        (Walk.room window window.min.toNat items.length) := by
  unfold slice Walk.room
  cases bounded : window.max with
  | none => simp only [← List.length_drop, List.take_length]
  | some max =>
      have least : window.min.toNat ≤ max.toNat := Window.isOrdered_iff.mp ordered max bounded
      simp only [List.take_eq_take_iff, List.length_drop]
      omega

/-- What a walk cuts out that has to be followed from its beginning. -/
theorem Window.slice_eq_drop_take (ordered : window.IsOrdered) {items : List α} {bound : Nat}
    (short : items.length ≤ bound) :
    window.slice items = (items.take (Walk.room window 0 bound)).drop window.min.toNat := by
  unfold slice Walk.room
  cases bounded : window.max with
  | none => simp only [Nat.sub_zero, List.take_of_length_le short]
  | some max =>
      have least : window.min.toNat ≤ max.toNat := Window.isOrdered_iff.mp ordered max bounded
      simp only [List.drop_take, List.take_eq_take_iff, List.length_drop]
      omega

end Slices

namespace Host

variable {host : Host}

/-- The ancestors of a node, the nearest first, as far as there is room for them. -/
def lineage (host : Host) : (room : Nat) → NodeId → List NodeId
  | 0, _ => []
  | room + 1, node =>
      match (host.parent node).toOption.join with
      | none => []
      | some parent => parent :: lineage host room parent

/-- Where a node is: its parent, and its position among the children that a walk visits. -/
def place? (host : Host) (node : NodeId) : Option (NodeId × Nat) := do
  let parent ← (host.parent node).toOption.join
  let index ← (host.visibleChildren parent).idxOf? node
  return (parent, index)

/-- All nodes that a connector leads to, in the order in which a walk comes upon them. -/
def along (host : Host) (connector : Connector) (node : NodeId) : List NodeId :=
  match connector with
  | .child => host.visibleChildren node
  | .descendant => host.visit maxDescendants (host.visibleChildren node)
  | .ancestor => host.lineage (host.tree.size + 1) node
  | .afterBrother =>
      (host.place? node).elim [] fun (parent, index) =>
        (host.visibleChildren parent).drop (index + 1)
  | .beforeBrother =>
      (host.place? node).elim [] fun (parent, index) =>
        ((host.visibleChildren parent).take index).reverse

theorem take_lineage {room bound : Nat} (within : room ≤ bound) (node : NodeId) :
    (host.lineage bound node).take room = host.lineage room node := by
  induction room generalizing bound node with
  | zero => rfl
  | succ room hypothesis =>
      obtain ⟨bound, rfl⟩ : ∃ less, bound = less + 1 := ⟨bound - 1, by omega⟩
      simp only [lineage]
      cases (host.parent node).toOption.join with
      | none => rfl
      | some parent => simp [hypothesis (Nat.le_of_succ_le_succ within)]

theorem take_visit {room bound : Nat} (within : room ≤ bound) (pending : List NodeId) :
    (host.visit bound pending).take room = host.visit room pending := by
  induction room generalizing bound pending with
  | zero => cases pending <;> rfl
  | succ room hypothesis =>
      obtain ⟨bound, rfl⟩ : ∃ less, bound = less + 1 := ⟨bound - 1, by omega⟩
      cases pending with
      | nil => rfl
      | cons node pending => simp [visit, hypothesis (Nat.le_of_succ_le_succ within)]

theorem gives_pullsFrom_upward (offset left : Nat) (node : NodeId) :
    Gives (Walk.pullsFrom host.directView (.upward node) offset left)
      ((host.lineage left node).map some) := by
  induction left generalizing offset node with
  | zero => exact .pure []
  | succ left hypothesis =>
      have found : Gives (host.directView.parent node) (host.parent node).toOption.join :=
        (Reading.gives_ask _).map _
      have looked : Gives (Route.look host.directView offset (.upward node))
          ((host.parent node).toOption.join.elim .ended fun parent =>
            .reached parent (.upward parent)) := by
        refine found.bind ?_
        cases (host.parent node).toOption.join <;> exact .pure _
      refine looked.bind ?_
      rw [lineage]
      cases (host.parent node).toOption.join with
      | none => exact .pure []
      | some parent => exact (hypothesis (offset + 1) parent).map _

theorem IsPlain.gives_pullsFrom_below (plain : host.IsPlain) (offset left : Nat)
    (stack : List Frame) :
    Gives (Walk.pullsFrom host.directView (.below stack) offset left)
      ((host.visit left (host.pending stack)).map some) := by
  induction left generalizing offset stack with
  | zero => exact .pure []
  | succ left hypothesis =>
      have descends := (host.directView_isSteady.descend stack).gives
      have met := plain.descend_result stack
      cases found : (Route.descend host.directView stack).result with
      | none =>
          rw [found] at met descends
          have looked : Gives (Route.look host.directView offset (.below stack)) .ended :=
            descends.bind (.pure _)
          rw [met]
          exact looked.bind (.pure [])
      | some below =>
          rw [found] at met descends
          obtain ⟨others, before, after⟩ := met
          have looked : Gives (Route.look host.directView offset (.below stack))
              (.reached below.1 (.below below.2)) :=
            descends.bind (.pure _)
          rw [before, visit, ← after]
          exact looked.bind ((hypothesis (offset + 1) below.2).map _)

/-- Candidates at known places are come upon one after the other. -/
theorem gives_pullsFrom_positional {view : View} {route : Route} {items : List NodeId}
    (looks : ∀ offset node, items[offset]? = some node →
      Gives (route.look view offset) (.reached node route))
    {offset left : Nat} (inside : left ≤ items.length - offset) :
    Gives (Walk.pullsFrom view route offset left) (((items.drop offset).take left).map some) := by
  induction left generalizing offset with
  | zero => exact .pure []
  | succ left hypothesis =>
      have here : offset < items.length := by omega
      rw [List.drop_eq_getElem_cons here, List.take_succ_cons, List.map_cons]
      refine (looks offset _ (List.getElem?_eq_getElem here)).bind ?_
      exact (hypothesis (by omega)).map _

theorem getElem?_visibleChildren {parent child : NodeId} {index : Nat} :
    (host.visibleChildren parent)[index]? = some child ↔
      host.child parent index = .ok (some child) ∧ index < maxChildren := by
  rw [child_eq_ok_iff, visibleChildren]
  cases host.access parent with
  | error error => simp
  | ok entry => simp [List.getElem?_take, and_comm]

theorem length_visibleChildren (parent : NodeId) :
    (host.visibleChildren parent).length =
      min ((host.childCount parent).toOption.getD 0) maxChildren := by
  rw [visibleChildren, childCount]
  cases host.access parent with
  | error error => rfl
  | ok entry => exact (List.length_take ..).trans (Nat.min_comm ..)

theorem IsPlain.gives_visibleChild (plain : host.IsPlain) {parent child : NodeId} {index : Nat}
    (visible : (host.visibleChildren parent)[index]? = some child) :
    Gives (host.directView.child parent index) (some child) := by
  have gives := plain.gives_child parent index
  rwa [(getElem?_visibleChildren.mp visible).1] at gives

/-- The first position at which a list has an item is found by looking at its items. -/
theorem gives_findPosition_idxOf? {test : Nat → Reading Bool} {items others : List NodeId}
    {node : NodeId} (tests : ∀ position item, (others ++ items)[position]? = some item →
      Gives (test position) (item == node)) :
    Gives (Reading.findPosition test others.length items.length)
      ((items.idxOf? node).map (· + others.length)) := by
  induction items generalizing others with
  | nil => exact .pure none
  | cons item items hypothesis =>
      have here : Gives (test others.length) (item == node) :=
        tests others.length item (by simp)
      have later := @hypothesis (others ++ [item]) (by simpa using tests)
      rw [List.idxOf?_cons]
      refine here.bind ?_
      cases item == node with
      | true => simpa using .pure _
      | false =>
          have shifted : (fun position => position + (others.length + 1)) =
              (fun position => position + others.length) ∘ (· + 1) := by
            funext position
            simp only [Function.comp_apply]
            omega
          simpa [shifted] using later

/-- The direct view finds a node at its first position among the children that a walk
visits. -/
theorem IsPlain.gives_index_idxOf? (plain : host.IsPlain) (node : NodeId) :
    Gives (host.directView.index node)
      ((host.parent node).toOption.join.elim (some 0) fun parent =>
        (host.visibleChildren parent).idxOf? node) := by
  have found : Gives (host.directView.parent node) (host.parent node).toOption.join :=
    (Reading.gives_ask _).map _
  refine found.bind ?_
  cases (host.parent node).toOption.join with
  | none => exact .pure _
  | some parent =>
      have tests : ∀ position item, ([] ++ host.visibleChildren parent)[position]? = some item →
          Gives (do return decide ((← host.readChild parent position) = some node))
            (item == node) := by
        intro position item visible
        have same : (item == node) = decide (some item = some node) := by
          simp [beq_eq_decide]
        rw [same]
        exact (plain.gives_visibleChild visible).map _
      have position := gives_findPosition_idxOf? tests
      refine (gives_childCount parent).bind ?_
      rw [← length_visibleChildren]
      simpa using position

section Starts

variable (plain : host.IsPlain) (node : NodeId) (window : Window)

theorem gives_start_child :
    Gives (Walk.start host.directView .child node window)
      (.positional window (.children node) (host.visibleChildren node).length) := by
  rw [length_visibleChildren]
  exact (gives_childCount node).bind (.pure _)

include plain

/-- A walk to the brothers of a node begins at the place of the node. -/
theorem IsPlain.gives_start_brothers {connector : Connector}
    (brothers : connector = .beforeBrother ∨ connector = .afterBrother) :
    Gives (Walk.start host.directView connector node window)
      ((host.place? node).elim .empty fun (parent, index) =>
        if connector = .afterBrother then
          .positional window (.forward parent index)
            ((host.visibleChildren parent).length - (index + 1))
        else .positional window (.backward parent index) index) := by
  have above : Gives (host.directView.parent node) (host.parent node).toOption.join :=
    (Reading.gives_ask _).map _
  have index := plain.gives_index_idxOf? node
  rcases brothers with rfl | rfl
  all_goals
    refine above.bind (index.bind ?_)
    unfold place?
    cases (host.parent node).toOption.join with
    | none => exact .pure _
    | some parent =>
        cases found : (host.visibleChildren parent).idxOf? node with
        | none => simpa [found] using .pure _
        | some index =>
            simp only [found, Option.elim_some]
            refine (gives_childCount parent).bind ?_
            simpa [found, length_visibleChildren] using .pure _

end Starts

/-- Where every candidate is produced, a walk passes over those before its window. -/
theorem gives_toList {view : View} {walk : Walk} {items : List NodeId}
    (pulled : Gives (walk.pulls view) (items.map some)) :
    Gives (walk.toList view) (items.drop (walk.lower - walk.offset)) := by
  have kept : walk.kept (items.map some) = items.drop (walk.lower - walk.offset) := by
    simp [Walk.kept, List.reduceOption, ← List.map_drop, List.filterMap_map]
  rw [Walk.toList_eq_pulls, ← kept]
  exact pulled.map _

/-- The candidates of a walk over a list that begins with its window. -/
theorem gives_toList_positional {view : View} {route : Route} {items : List NodeId}
    (looks : ∀ offset node, items[offset]? = some node →
      Gives (route.look view offset) (.reached node route))
    {window : Window} (ordered : window.IsOrdered) :
    Gives ((Walk.positional window route items.length).toList view) (window.slice items) := by
  have few : Walk.room window window.min.toNat items.length ≤
      items.length - window.min.toNat := by
    unfold Walk.room
    split <;> omega
  have pulled : Gives ((Walk.positional window route items.length).pulls view) _ :=
    gives_pullsFrom_positional looks few
  rw [Window.slice_eq_take_drop ordered]
  simpa [Walk.positional] using gives_toList pulled

/-- The candidates of a walk over a list that has to be followed from its beginning. -/
theorem gives_toList_sequential {view : View} {route : Route} {items : Nat → List NodeId}
    (pulls : ∀ left, Gives (Walk.pullsFrom view route 0 left) ((items left).map some))
    {bound : Nat} (begins : ∀ left ≤ bound, (items bound).take left = items left)
    {window : Window} (ordered : window.IsOrdered) :
    Gives ((Walk.sequential window route bound).toList view) (window.slice (items bound)) := by
  have few : Walk.room window 0 bound ≤ bound := by
    unfold Walk.room
    split <;> omega
  have short : (items bound).length ≤ bound := by
    rw [← begins bound (Nat.le_refl bound)]
    exact List.length_take_le bound _
  have pulled : Gives ((Walk.sequential window route bound).pulls view) _ := pulls _
  rw [Window.slice_eq_drop_take ordered short, begins _ few]
  simpa [Walk.sequential] using gives_toList pulled

theorem gives_toList_empty {view : View} : Gives (Walk.empty.toList view) [] := .pure []

theorem place?_eq_some_iff {node parent : NodeId} {index : Nat} :
    host.place? node = some (parent, index) ↔
      host.parent node = .ok (some parent) ∧
        (host.visibleChildren parent).idxOf? node = some index := by
  have above : (host.parent node).toOption.join = some parent ↔
      host.parent node = .ok (some parent) := by
    rcases host.parent node with error | _ | above <;> simp [Except.toOption]
  simp [place?, Option.bind_eq_some_iff, ← above]

theorem lt_length_of_place? {node : NodeId} {place : NodeId × Nat}
    (found : host.place? node = some place) :
    place.2 < (host.visibleChildren place.1).length := by
  obtain ⟨inside, _⟩ := List.idxOf?_eq_some_iff.mp (place?_eq_some_iff.mp found).2
  exact inside

/-- What stands at an offset of a list that is read backward from some position. -/
theorem getElem?_reverse_take {items : List NodeId} {item : NodeId} {index offset : Nat}
    (inside : index ≤ items.length) :
    (items.take index).reverse[offset]? = some item ↔
      1 + offset ≤ index ∧ items[index - (1 + offset)]? = some item := by
  have length : (items.take index).length = index := List.length_take_of_le inside
  rcases Nat.lt_or_ge offset index with before | beyond
  · have backward : index - 1 - offset = index - (1 + offset) := by omega
    have within : index - (1 + offset) < index := by omega
    have early : 1 + offset ≤ index := by omega
    rw [List.getElem?_reverse (by omega), length, backward]
    simp [within, early]
  · have late : ¬ 1 + offset ≤ index := by omega
    rw [List.getElem?_eq_none (by simp; omega)]
    simp [late]

/-- A walk finds the slice of its window out of what its connector leads to. -/
theorem IsPlain.gives_candidates (plain : host.IsPlain) (connector : Connector) (node : NodeId)
    {window : Window} (ordered : window.IsOrdered) :
    Gives (host.directView.candidates connector node window)
      (window.slice (host.along connector node)) := by
  cases connector with
  | child =>
      refine (gives_start_child node window).bind (gives_toList_positional ?_ ordered)
      intro offset child visible
      exact (plain.gives_visibleChild visible).map _
  | descendant =>
      have pending : host.pending [.unopened node] = host.visibleChildren node := by
        simp [pending, produced_unopened]
      have begins : ∀ left ≤ maxDescendants,
          (host.visit maxDescendants (host.visibleChildren node)).take left =
            host.visit left (host.visibleChildren node) :=
        fun left within => take_visit within _
      have pulls : ∀ left, Gives
          (Walk.pullsFrom host.directView (.below [.unopened node]) 0 left)
          ((host.visit left (host.visibleChildren node)).map some) := by
        intro left
        rw [← pending]
        exact plain.gives_pullsFrom_below 0 left _
      have listed := gives_toList_sequential pulls begins ordered
      exact Gives.bind (.pure _) listed
  | ancestor =>
      have begins : ∀ left ≤ host.tree.size + 1,
          (host.lineage (host.tree.size + 1) node).take left = host.lineage left node :=
        fun left within => take_lineage within node
      have listed := gives_toList_sequential
        (fun left => gives_pullsFrom_upward 0 left node) begins ordered
      exact Gives.bind (.pure _) listed
  | afterBrother =>
      refine (plain.gives_start_brothers node window (.inr rfl)).bind ?_
      rw [along]
      cases host.place? node with
      | none => simpa using gives_toList_empty
      | some place =>
          have looks : ∀ offset child,
              ((host.visibleChildren place.1).drop (place.2 + 1))[offset]? = some child →
                Gives (Route.look host.directView offset (.forward place.1 place.2))
                  (.reached child (.forward place.1 place.2)) := by
            intro offset child visible
            rw [List.getElem?_drop] at visible
            exact (plain.gives_visibleChild visible).map _
          simpa using gives_toList_positional looks ordered
  | beforeBrother =>
      refine (plain.gives_start_brothers node window (.inl rfl)).bind ?_
      rw [along]
      cases found : host.place? node with
      | none => simpa using gives_toList_empty
      | some place =>
          have inside : place.2 < (host.visibleChildren place.1).length :=
            lt_length_of_place? found
          have looks : ∀ offset child,
              ((host.visibleChildren place.1).take place.2).reverse[offset]? = some child →
                Gives (Route.look host.directView offset (.backward place.1 place.2))
                  (.reached child (.backward place.1 place.2)) := by
            intro offset child visible
            obtain ⟨_, visible⟩ := (getElem?_reverse_take (Nat.le_of_lt inside)).mp visible
            exact (plain.gives_visibleChild visible).map _
          simpa [Nat.min_eq_left (Nat.le_of_lt inside)] using gives_toList_positional looks ordered

theorem IsPlain.gives_along (plain : host.IsPlain) (connector : Connector) (node : NodeId) :
    Gives (host.directView.candidates connector node .unbounded) (host.along connector node) := by
  have ordered : Window.unbounded.IsOrdered := rfl
  rw [← Window.slice_unbounded (host.along connector node)]
  exact plain.gives_candidates connector node ordered

/-- Whatever was detached, the candidates along a connector are a slice of all that it leads
to: those at the offsets of the window.  They are part of what the walk comes upon until it
ends.  If the window has an end, the walk comes upon nothing beyond it; and where candidates
are at known places, it then asks the host no more often than the window has offsets, however
many children there are. -/
theorem candidates_are_slices (root : CapturedNode) (gone : List NodeId) (indexed : Bool)
    (connector : Connector) (node : NodeId) (window : Window) (ordered : window.IsOrdered)
    (session session' : Session) :
    let view := (serving root gone indexed).directView
    let walk := (Walk.start view connector node window).answer session
    let started := (Walk.start view connector node window).after session
    (view.candidates connector node window).answer session =
        window.slice ((view.candidates connector node .unbounded).answer session') ∧
      walk.toList view = (do return walk.kept (← walk.pulls view)) ∧
      ∀ max ∈ window.max,
        ((walk.pulls view).answer started).length ≤ max.toNat + 1 ∧
          (connector.isPositional = true →
            ((walk.toList view).after started).calls ≤
              started.calls + (max.toNat - window.min.toNat + 1)) := by
  intro view walk started
  have plain := serving_isPlain root gone indexed
  have windowed := plain.gives_candidates connector node ordered
  have whole := plain.gives_along connector node
  obtain ⟨few, direct⟩ := Walk.start_ensures view connector node window session
  refine ⟨?_, walk.toList_eq_pulls view, fun max bounded => ⟨?_, fun positional => ?_⟩⟩
  · rw [windowed session, whole session']
  · have pulled : ((walk.pulls view).answer started).length ≤ walk.left :=
      Walk.pullsFrom_ensures_length view walk.route walk.offset walk.left started
    exact Nat.le_trans pulled (few max bounded)
  · exact plain.calls_toList (direct positional) started max bounded

/-- The second and the third of the brothers behind a node, of which the second was detached,
are asked for one by one. -/
theorem candidates_are_slices_pastDetached :
    let tree : CapturedNode :=
      .node {} [.node {} [], .node {} [.node {} []], .node {} [], .node {} [], .node {} []]
    let view := (serving tree [4] true).directView
    let window : Window := ⟨1, some 2⟩
    let walk := (Walk.start view .afterBrother 1 window).answer (.fresh 0)
    let started := (Walk.start view .afterBrother 1 window).after (.fresh 0)
    window.IsOrdered ∧
      (view.candidates .afterBrother 1 .unbounded).answer (.fresh 0) = [2, 4, 5, 6] ∧
      (view.candidates .afterBrother 1 window).answer (.fresh 0) = [4, 5] ∧
      ((walk.toList view).after started).calls ≤ started.calls + 2 := by
  intro tree view window walk started
  have ordered : window.IsOrdered := rfl
  have whole : (view.candidates .afterBrother 1 .unbounded).answer (.fresh 0) = [2, 4, 5, 6] := by
    decide +kernel
  obtain ⟨sliced, _, bounded⟩ := candidates_are_slices tree [4] true .afterBrother 1 window
    ordered (.fresh 0) (.fresh 0)
  refine ⟨ordered, whole, ?_, (bounded 2 rfl).2 rfl⟩
  rw [sliced, whole]
  rfl

end Host

end TreeSelector
