import Temnion.Library.OrderedMap

/-
This file follows the edges of a graph breadth first up to a depth and says exactly what is found.
-/

namespace Trace

variable {A : Type} [LinearOrder A]

/-- A path of so many steps leads from the root to the node. -/
inductive Path (next : A → List A) (root : A) : Nat → A → Prop where
  | root : Path next root 0 root
  | step {steps : Nat} {node neighbour : A} (path : Path next root steps node) (edge : neighbour ∈ next node) :
      Path next root (steps + 1) neighbour

omit [LinearOrder A] in
theorem Path.mono {next next' : A → List A} {root node : A} {steps : Nat} (path : Path next root steps node)
    (sub : ∀ node neighbour, neighbour ∈ next node → neighbour ∈ next' node) : Path next' root steps node := by
  induction path with
  | root => exact .root
  | step _ edge hypothesis => exact hypothesis.step (sub _ _ edge)

structure State (A : Type) [LinearOrder A] where
  queue : List (A × Nat)
  visited : List A
  nodes : List A
  depths : OrderedMap A Nat
  edges : List (A × A)

def start (root : A) : State A where
  queue := [(root, 0)]
  visited := [root]
  nodes := [root]
  depths := (∅ : OrderedMap A Nat).insert root 0
  edges := []

/-- Every edge is recorded, and a neighbour that was not visited before is queued. -/
def note (current : A) (depth : Nat) (state : State A) (neighbour : A) : State A :=
  if neighbour ∈ state.visited then { state with edges := state.edges ++ [(current, neighbour)] }
  else {
    queue := state.queue ++ [(neighbour, depth + 1)]
    visited := neighbour :: state.visited
    nodes := state.nodes ++ [neighbour]
    depths := state.depths.insert neighbour (depth + 1)
    edges := state.edges ++ [(current, neighbour)] }

/-- None stands for a queue that outlives the fuel. -/
def drain (next : A → List A) (limit : Nat) : Nat → State A → Option (State A)
  | 0, _ => none
  | fuel + 1, state =>
      match state.queue with
      | [] => some state
      | (current, depth) :: queue =>
          if limit ≤ depth then drain next limit fuel { state with queue := queue }
          else drain next limit fuel ((next current).foldl (note current depth) { state with queue := queue })

variable {next : A → List A} {root current : A} {limit depth fuel : Nat} {levels done added : List (A × Nat)}
  {state final : State A}

/-- The nodes with their depths in the order in which they were found. -/
structure Placed (next : A → List A) (root : A) (limit : Nat) (levels : List (A × Nat)) (state : State A) : Prop where
  nodes : state.nodes = levels.map Prod.fst
  visited : ∀ node, node ∈ state.visited ↔ node ∈ state.nodes
  nodup : state.nodes.Nodup
  depths : ∀ node depth, state.depths[node]? = some depth ↔ (node, depth) ∈ levels
  head : levels.head? = some (root, 0)
  ascending : levels.Pairwise fun first second => first.2 ≤ second.2
  path : ∀ pair ∈ levels, Path next root pair.2 pair.1 ∧ pair.2 ≤ limit

/-- The nodes that are done have all their neighbours among the nodes that were found. -/
structure Kept (next : A → List A) (root : A) (limit : Nat) (done : List (A × Nat)) (state : State A) : Prop where
  placed : Placed next root limit (done ++ state.queue) state
  near : ∀ first ∈ state.queue.head?, ∀ pair ∈ done ++ state.queue, pair.2 ≤ first.2 + 1
  closed : ∀ pair ∈ done, pair.2 < limit → ∀ neighbour ∈ next pair.1,
    ∃ depth, depth ≤ pair.2 + 1 ∧ (neighbour, depth) ∈ done ++ state.queue
  edges : state.edges = (done.filter fun pair => pair.2 < limit).flatMap fun pair => (next pair.1).map (pair.1, ·)

theorem Placed.mem_nodes (placed : Placed next root limit levels state) {node : A} :
    node ∈ state.nodes ↔ ∃ depth, (node, depth) ∈ levels := by
  rw [placed.nodes, List.mem_map]
  constructor
  · rintro ⟨⟨node, depth⟩, member, rfl⟩
    exact ⟨depth, member⟩
  · rintro ⟨depth, member⟩
    exact ⟨_, member, rfl⟩

theorem start_kept (next : A → List A) (root : A) (limit : Nat) : Kept next root limit [] (start root) where
  placed := {
    nodes := rfl
    visited := fun node => Iff.rfl
    nodup := List.nodup_singleton root
    depths := by
      intro node depth
      have empty : (∅ : OrderedMap A Nat)[node]? = none := Std.ExtTreeMap.getElem?_empty
      rw [start, OrderedMap.insert_getElem?, empty, List.nil_append, List.mem_singleton, Prod.mk.injEq]
      by_cases same : root = node
      · rw [if_pos same, Option.some.injEq]
        exact ⟨fun zero => ⟨same.symm, zero.symm⟩, fun both => both.2.symm⟩
      · rw [if_neg same]
        exact iff_of_false nofun fun both => same both.1.symm
    head := rfl
    ascending := List.pairwise_singleton _ _
    path := by
      intro pair member
      rw [List.mem_singleton.mp member]
      exact ⟨Path.root, Nat.zero_le limit⟩ }
  near := by
    intro first head pair member
    rw [List.mem_singleton.mp member]
    exact Nat.zero_le _
  closed := nofun
  edges := rfl

/-- A neighbour that was not visited is placed behind all others. -/
theorem Placed.append (placed : Placed next root limit levels state) {neighbour : A}
    (fresh : neighbour ∉ state.visited) (bound : ∀ pair ∈ levels, pair.2 ≤ depth + 1)
    (path : Path next root (depth + 1) neighbour) (short : depth < limit) :
    Placed next root limit (levels ++ [(neighbour, depth + 1)]) (note current depth state neighbour) := by
  rw [note, if_neg fresh]
  have absent : neighbour ∉ state.nodes := fun member => fresh ((placed.visited neighbour).mpr member)
  refine ⟨?_, fun node => ?_, ?_, fun node other => ?_, ?_, ?_, ?_⟩
  · rw [placed.nodes, List.map_append]
    rfl
  · rw [List.mem_cons, List.mem_append, List.mem_singleton, placed.visited, or_comm]
  · exact List.nodup_append.mpr ⟨placed.nodup, List.nodup_singleton _, fun node member other single => by
      rw [List.mem_singleton.mp single]
      exact fun same => absent (same ▸ member)⟩
  · rw [OrderedMap.insert_getElem?, List.mem_append, List.mem_singleton, Prod.mk.injEq, ← placed.depths]
    by_cases same : neighbour = node
    · have none' : state.depths[node]? ≠ some other := fun found =>
        absent (placed.mem_nodes.mpr ⟨other, same ▸ (placed.depths node other).mp found⟩)
      rw [if_pos same, Option.some.injEq]
      exact ⟨fun equal => Or.inr ⟨same.symm, equal.symm⟩, fun either => (either.resolve_left none').2.symm⟩
    · rw [if_neg same]
      exact ⟨Or.inl, fun either => either.resolve_right fun both => same both.1.symm⟩
  · rw [List.head?_append, placed.head]
    rfl
  · refine List.pairwise_append.mpr ⟨placed.ascending, List.pairwise_singleton _ _, ?_⟩
    intro pair member last single
    rw [List.mem_singleton.mp single]
    exact bound pair member
  · exact List.forall_mem_append.mpr ⟨placed.path, fun pair single => by
      rw [List.mem_singleton.mp single]
      exact ⟨path, short⟩⟩

/-- One neighbour is noted. -/
theorem Placed.note (placed : Placed next root limit levels state) (here : (current, depth) ∈ levels)
    (bound : ∀ pair ∈ levels, pair.2 ≤ depth + 1) (short : depth < limit) {neighbour : A}
    (edge : neighbour ∈ next current) :
    ∃ added, Placed next root limit (levels ++ added) (note current depth state neighbour) ∧
      (note current depth state neighbour).queue = state.queue ++ added ∧
      (note current depth state neighbour).edges = state.edges ++ [(current, neighbour)] ∧
      (∀ pair ∈ levels ++ added, pair.2 ≤ depth + 1) ∧ ∃ other, (neighbour, other) ∈ levels ++ added := by
  by_cases seen : neighbour ∈ state.visited
  · obtain ⟨other, member⟩ := placed.mem_nodes.mp ((placed.visited neighbour).mp seen)
    refine ⟨[], ?_, ?_, ?_, ?_, other, List.mem_append_left _ member⟩
    · rw [Trace.note, if_pos seen, List.append_nil]
      exact ⟨placed.nodes, placed.visited, placed.nodup, placed.depths, placed.head, placed.ascending, placed.path⟩
    · rw [Trace.note, if_pos seen, List.append_nil]
    · rw [Trace.note, if_pos seen]
    · rwa [List.append_nil]
  · refine ⟨[(neighbour, depth + 1)], placed.append seen bound ((placed.path _ here).1.step edge) short, ?_, ?_, ?_,
      depth + 1, List.mem_append_right _ (List.mem_singleton.mpr rfl)⟩
    · rw [Trace.note, if_neg seen]
    · rw [Trace.note, if_neg seen]
    · refine List.forall_mem_append.mpr ⟨bound, fun pair single => ?_⟩
      rw [List.mem_singleton.mp single]

/-- All neighbours are noted one after the other. -/
theorem Placed.foldl_note (placed : Placed next root limit levels state) (here : (current, depth) ∈ levels)
    (bound : ∀ pair ∈ levels, pair.2 ≤ depth + 1) (short : depth < limit) {neighbours : List A}
    (edges : ∀ neighbour ∈ neighbours, neighbour ∈ next current) :
    ∃ added, Placed next root limit (levels ++ added) (neighbours.foldl (Trace.note current depth) state) ∧
      (neighbours.foldl (Trace.note current depth) state).queue = state.queue ++ added ∧
      (neighbours.foldl (Trace.note current depth) state).edges = state.edges ++ neighbours.map (current, ·) ∧
      (∀ pair ∈ levels ++ added, pair.2 ≤ depth + 1) ∧
      ∀ neighbour ∈ neighbours, ∃ other, (neighbour, other) ∈ levels ++ added := by
  induction neighbours generalizing levels state with
  | nil =>
      refine ⟨[], ?_, (List.append_nil _).symm, (List.append_nil _).symm, ?_, nofun⟩
      · rwa [List.append_nil]
      · rwa [List.append_nil]
  | cons neighbour neighbours hypothesis =>
      obtain ⟨edge, others⟩ := List.forall_mem_cons.mp edges
      obtain ⟨first, placed', queue, noted, bound', other, member⟩ := placed.note here bound short edge
      obtain ⟨rest, placed'', queue', noted', bound'', found⟩ :=
        hypothesis placed' (List.mem_append_left _ here) bound' others
      rw [List.append_assoc] at placed'' bound''
      refine ⟨first ++ rest, placed'', ?_, ?_, bound'', List.forall_mem_cons.mpr ⟨⟨other, ?_⟩, ?_⟩⟩
      · rw [List.foldl_cons, queue', queue, List.append_assoc]
      · rw [List.foldl_cons, noted', noted, List.append_assoc]
        rfl
      · rw [← List.append_assoc]
        exact List.mem_append_left _ member
      · rwa [← List.append_assoc]

/-- One node is taken from the queue. -/
theorem Kept.step {queue : List (A × Nat)} (kept : Kept next root limit done state)
    (first : state.queue = (current, depth) :: queue) :
    ∃ state', (∀ fuel, drain next limit (fuel + 1) state = drain next limit fuel state') ∧
      Kept next root limit (done ++ [(current, depth)]) state' := by
  obtain ⟨placed, near, closed, edges⟩ := kept
  rw [first] at placed near closed
  have levels : done ++ (current, depth) :: queue = done ++ [(current, depth)] ++ queue := by
    rw [List.append_assoc, List.singleton_append]
  have here : (current, depth) ∈ done ++ [(current, depth)] ++ queue :=
    List.mem_append_left _ (List.mem_append_right _ (List.mem_singleton.mpr rfl))
  have bound := near (current, depth) rfl
  rw [levels] at placed bound closed
  have later : ∀ pair ∈ queue, depth ≤ pair.2 := by
    intro pair member
    rw [List.append_assoc] at placed
    exact (List.pairwise_cons.mp (List.pairwise_append.mp placed.ascending).2.1).1 pair member
  by_cases deep : limit ≤ depth
  · refine ⟨{ state with queue := queue }, fun fuel => ?_, ⟨?_, ?_, ?_, ?_⟩⟩
    · rw [drain, first]
      exact if_pos deep
    · exact ⟨placed.nodes, placed.visited, placed.nodup, placed.depths, placed.head, placed.ascending, placed.path⟩
    · intro next head pair member
      exact (bound pair member).trans (Nat.succ_le_succ (later next (List.mem_of_head? head)))
    · intro pair member short
      rcases List.mem_append.mp member with before | single
      · exact closed pair before short
      · rw [List.mem_singleton.mp single] at short
        exact absurd short (Nat.not_lt.mpr deep)
    · rw [List.filter_append, List.filter_singleton, decide_eq_false (Nat.not_lt.mpr deep), cond_false, List.append_nil]
      exact edges
  · have short := Nat.lt_of_not_le deep
    have placed' : Placed next root limit (done ++ [(current, depth)] ++ queue) { state with queue := queue } :=
      ⟨placed.nodes, placed.visited, placed.nodup, placed.depths, placed.head, placed.ascending, placed.path⟩
    obtain ⟨added, all, queued, noted, bound', found⟩ := placed'.foldl_note here bound short fun _ member => member
    rw [List.append_assoc, ← queued] at all bound' found
    refine ⟨(next current).foldl (Trace.note current depth) { state with queue := queue }, fun fuel => ?_,
      ⟨all, ?_, ?_, ?_⟩⟩
    · rw [drain, first]
      exact if_neg deep
    · intro next head pair member
      refine (bound' pair member).trans (Nat.succ_le_succ ?_)
      have inside := List.mem_of_head? head
      have ascending := all.ascending
      rw [List.append_assoc] at ascending
      exact (List.pairwise_cons.mp (List.pairwise_append.mp ascending).2.1).1 next inside
    · intro pair member shorter neighbour edge
      rcases List.mem_append.mp member with before | single
      · obtain ⟨other, less, inside⟩ := closed pair before shorter neighbour edge
        refine ⟨other, less, ?_⟩
        rw [queued, ← List.append_assoc]
        exact List.mem_append_left _ inside
      · obtain rfl := List.mem_singleton.mp single
        obtain ⟨other, inside⟩ := found neighbour edge
        exact ⟨other, bound' _ inside, inside⟩
    · rw [noted, List.filter_append, List.filter_singleton, decide_eq_true short, cond_true, List.flatMap_append]
      exact congrArg₂ _ edges (List.append_nil _).symm

/-- Nothing is left in the queue when the search ends. -/
theorem Kept.drain (kept : Kept next root limit done state) (ended : drain next limit fuel state = some final) :
    ∃ all, Kept next root limit all final ∧ final.queue = [] := by
  induction fuel generalizing done state with
  | zero => cases ended
  | succ fuel hypothesis =>
      cases queue : state.queue with
      | nil =>
          rw [Trace.drain, queue] at ended
          obtain rfl := Option.some.inj ended
          exact ⟨done, kept, queue⟩
      | cons first rest =>
          obtain ⟨state', moves, kept'⟩ := kept.step queue
          rw [moves] at ended
          exact hypothesis kept' ended

/-- The search ends when every neighbour is one of the nodes of a list. -/
theorem Kept.drain_ends {nodes : List A} (inside : ∀ node neighbour, neighbour ∈ next node → neighbour ∈ nodes)
    (kept : Kept next root limit done state) (enough : nodes.length + 1 < fuel + done.length) :
    ∃ final, Trace.drain next limit fuel state = some final := by
  induction fuel generalizing done state with
  | zero =>
      have within : state.nodes ⊆ root :: nodes := by
        intro node member
        obtain ⟨depth, placed⟩ := kept.placed.mem_nodes.mp member
        rcases (kept.placed.path _ placed).1 with _ | ⟨_, edge⟩
        · exact List.mem_cons_self
        · exact List.mem_cons_of_mem _ (inside _ _ edge)
      have most := (kept.placed.nodup.subperm within).length_le
      rw [kept.placed.nodes, List.length_map, List.length_append, List.length_cons] at most
      omega
  | succ fuel hypothesis =>
      cases queue : state.queue with
      | nil => exact ⟨state, by rw [Trace.drain, queue]⟩
      | cons first rest =>
          obtain ⟨state', moves, kept'⟩ := kept.step queue
          obtain ⟨final, ended⟩ := hypothesis kept' (by rw [List.length_append, List.length_singleton]; omega)
          exact ⟨final, (moves fuel).trans ended⟩

/-- The found nodes are those within the limit, by depth and each once. The edges leave the nodes above the limit. -/
structure Exact (next : A → List A) (root : A) (limit : Nat) (nodes : List A) (depths : OrderedMap A Nat)
    (edges : List (A × A)) : Prop where
  nodup : nodes.Nodup
  head : nodes.head? = some root
  reached : ∀ node, node ∈ nodes ↔ ∃ steps ≤ limit, Path next root steps node
  shortest : ∀ node depth, depths[node]? = some depth ↔
    depth ≤ limit ∧ Path next root depth node ∧ ∀ steps, Path next root steps node → depth ≤ steps
  ascending : nodes.Pairwise fun first second => ∀ depth further, depths[first]? = some depth →
    depths[second]? = some further → depth ≤ further
  edges : edges = (nodes.filter fun node => (depths[node]?.any (· < limit))).flatMap fun node =>
    (next node).map (node, ·)

/-- A path within the limit leads to a node that is found no deeper. -/
theorem Kept.covers (kept : Kept next root limit done state) (empty : state.queue = []) {steps : Nat} {node : A}
    (path : Path next root steps node) (short : steps ≤ limit) : ∃ depth ≤ steps, (node, depth) ∈ done := by
  have all : done ++ state.queue = done := by rw [empty, List.append_nil]
  induction path with
  | root =>
      have first := kept.placed.head
      rw [all] at first
      exact ⟨0, le_refl 0, List.mem_of_head? first⟩
  | step path edge hypothesis =>
      obtain ⟨depth, less, member⟩ := hypothesis (Nat.le_of_succ_le short)
      obtain ⟨other, near, found⟩ := kept.closed _ member (Nat.lt_of_le_of_lt less short) _ edge
      rw [all] at found
      exact ⟨other, near.trans (Nat.succ_le_succ less), found⟩

/-- A search with an empty queue is exact. -/
theorem Kept.exact (kept : Kept next root limit done state) (empty : state.queue = []) :
    Exact next root limit state.nodes state.depths state.edges := by
  have all : done ++ state.queue = done := by rw [empty, List.append_nil]
  have nodes : state.nodes = done.map Prod.fst := by rw [kept.placed.nodes, all]
  have depths : ∀ node depth, state.depths[node]? = some depth ↔ (node, depth) ∈ done := by
    intro node depth
    rw [kept.placed.depths, all]
  have paths : ∀ pair ∈ done, Path next root pair.2 pair.1 ∧ pair.2 ≤ limit := by
    intro pair member
    exact kept.placed.path pair (all.symm ▸ member)
  have same : ∀ {node depth other}, (node, depth) ∈ done → (node, other) ∈ done → depth = other := by
    intro node depth other one two
    exact Option.some.inj (((depths node depth).mpr one).symm.trans ((depths node other).mpr two))
  refine ⟨kept.placed.nodup, ?_, fun node => ?_, fun node depth => ?_, ?_, ?_⟩
  · have first := kept.placed.head
    rw [all] at first
    rw [nodes, List.head?_map, first]
    rfl
  · rw [nodes, List.mem_map]
    constructor
    · rintro ⟨pair, member, rfl⟩
      exact ⟨pair.2, (paths pair member).2, (paths pair member).1⟩
    · rintro ⟨steps, short, path⟩
      obtain ⟨depth, -, member⟩ := kept.covers empty path short
      exact ⟨_, member, rfl⟩
  · rw [depths]
    constructor
    · intro member
      refine ⟨(paths _ member).2, (paths _ member).1, fun steps path => ?_⟩
      by_cases short : steps ≤ limit
      · obtain ⟨other, less, found⟩ := kept.covers empty path short
        exact same member found ▸ less
      · exact (paths _ member).2.trans (Nat.le_of_not_le short)
    · rintro ⟨short, path, least⟩
      obtain ⟨other, less, found⟩ := kept.covers empty path short
      rwa [le_antisymm (least other (paths _ found).1) less]
  · have ascending := kept.placed.ascending
    rw [all] at ascending
    rw [nodes, List.pairwise_map]
    refine ascending.imp_of_mem ?_
    intro first second member also less depth further one two
    rw [same ((depths _ _).mp one) member, same ((depths _ _).mp two) also]
    exact less
  · rw [kept.edges, nodes, List.filter_map, List.flatMap_map]
    have chosen : done.filter (fun pair => decide (pair.2 < limit)) =
        done.filter ((fun node => state.depths[node]?.any (· < limit)) ∘ Prod.fst) := by
      refine List.filter_congr fun pair member => ?_
      rw [Function.comp_apply, (depths pair.1 pair.2).mpr member]
      rfl
    rw [chosen]

/-- A search with a round for every node of a list that holds all neighbours is exact. -/
theorem drain_exact {nodes : List A} (root : A) (limit : Nat)
    (inside : ∀ node neighbour, neighbour ∈ next node → neighbour ∈ nodes) (enough : nodes.length + 1 < fuel) :
    ∃ final, drain next limit fuel (start root) = some final ∧
      Exact next root limit final.nodes final.depths final.edges := by
  have kept := start_kept next root limit
  obtain ⟨final, ended⟩ := kept.drain_ends inside enough
  obtain ⟨done, kept', empty⟩ := kept.drain ended
  exact ⟨final, ended, kept'.exact empty⟩

end Trace
