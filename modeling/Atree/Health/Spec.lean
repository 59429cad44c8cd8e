import Atree.Health.Parents

/-! What `CheckHealth` accepts on storages of array slabs and `StorableSlab`s of plain
values: each id referenced once, no cycle, every slab above a leaf, one address at
both ends of every edge, and `n` roots. -/

namespace Atree

namespace BasicSlabStorage

variable (s : BasicSlabStorage)

/-- The slab stored under `p` references `x`. -/
def References (p x : StorageID) : Prop := ∃ slab, s.slabs.lookup p = some slab ∧ x ∈ slab.references

/-- `y` is `x` or lies above it, following references from children up to parents. -/
def AncestorOrSelf : StorageID → StorageID → Prop := Relation.ReflTransGen fun x p => s.References p x

/-- Whether a stored slab references `x`. -/
def referenced (x : StorageID) : Bool := s.slabs.entries.any fun e => decide (x ∈ e.2.references)

/-- A healthy reference graph with `n` roots: no id referenced twice, counting
repeats; the same address at both ends of every edge between stored slabs; no
cycle; every stored slab a leaf or above one; and `n` stored slabs that nothing
references. -/
structure HealthyGraph (n : Int) : Prop where
  referencedOnce : (s.slabs.entries.flatMap fun e => e.2.references).Nodup
  sameOwner : ∀ p x slab slab', s.slabs.lookup p = some slab → x ∈ slab.references →
    s.slabs.lookup x = some slab' → slab'.id.address = slab.id.address
  acyclic : ∀ p x, s.References p x → ¬ s.AncestorOrSelf p x
  grounded : ∀ y ∈ s.slabs.keys, ∃ leaf slab, s.slabs.lookup leaf = some slab ∧ slab.isLeaf ∧ s.AncestorOrSelf leaf y
  rootCount : ((s.slabs.keys.filter fun x => !s.referenced x).length : Int) = n

variable {s}

theorem mem_keys_of_lookup {id : StorageID} {slab : Slab} (found : s.slabs.lookup id = some slab) :
    id ∈ s.slabs.keys :=
  AList.mem_keys.mpr (AList.lookup_isSome.mp (by simp [found]))

theorem References.stored {p x : StorageID} (ref : s.References p x) : p ∈ s.slabs.keys := by
  obtain ⟨slab, found, -⟩ := ref
  exact mem_keys_of_lookup found

private theorem referenced_eq_false_iff {x : StorageID} : s.referenced x = false ↔ ∀ p, ¬ s.References p x := by
  simp only [referenced, List.any_eq_false, decide_eq_true_eq, References, not_exists, not_and]
  constructor
  · intro unreferenced p slab found ref
    exact unreferenced ⟨p, slab⟩ (AList.mem_lookup_iff.mp found) ref
  · intro unreferenced e member ref
    exact unreferenced e.1 e.2 (AList.mem_lookup_iff.mpr member) ref

private theorem referencesAlong_keys : referencesAlong s.slabs s.slabs.keys = s.slabs.entries.flatMap fun e => e.2.references := by
  simp only [referencesAlong, AList.keys, List.keys, List.flatMap, List.map_map]
  congr 1
  apply List.map_congr_left
  rintro ⟨id, slab⟩ member
  have found : s.slabs.lookup id = some slab := AList.mem_lookup_iff.mpr member
  simp [found]

end BasicSlabStorage

section Graph

variable {s : BasicSlabStorage} {parentOf : ParentMap} (parents : ∀ x p, parentOf.lookup x = some p ↔ s.References p x)
include parents

private theorem Climb.ancestorOrSelf {leaf root q : StorageID} {path : List StorageID}
    (climb : Climb s.slabs parentOf leaf path root) (onPath : q = leaf ∨ q ∈ path) : s.AncestorOrSelf leaf q := by
  induction climb with
  | root => rcases onPath with rfl | member; exacts [.refl, absurd member (List.not_mem_nil _)]
  | @step id p path root parent _ _ ih =>
    have up : s.AncestorOrSelf id p := .single ((parents id p).mp parent)
    rcases onPath with rfl | member
    · exact .refl
    · rcases List.mem_cons.mp member with rfl | member
      · exact up
      · exact up.trans (ih (.inr member))

private theorem Climb.of_ancestorOrSelf {x q root : StorageID} {path : List StorageID}
    (climb : Climb s.slabs parentOf x path root) (above : s.AncestorOrSelf x q) :
    ∃ path', Climb s.slabs parentOf q path' root ∧ path' <:+ path ∧ (q = x ∨ q ∈ path) := by
  induction above with
  | refl => exact ⟨path, climb, List.suffix_refl _, .inl rfl⟩
  | @tail child parent _ ref ih =>
    obtain ⟨path', climb', suffix, _⟩ := ih
    cases climb' with
    | root parentless => rw [(parents _ _).mpr ref] at parentless; cases parentless
    | step recorded _ rest =>
      rw [(parents _ _).mpr ref] at recorded
      cases recorded
      exact ⟨_, rest, (List.suffix_cons _ _).trans suffix, .inr (suffix.subset (List.mem_cons_self _ _))⟩

private theorem Climb.of_onClimb {x q root : StorageID} {path : List StorageID}
    (climb : Climb s.slabs parentOf x path root) (onPath : q = x ∨ q ∈ path) :
    ∃ path', Climb s.slabs parentOf q path' root := by
  obtain ⟨path', climb', -⟩ := climb.of_ancestorOrSelf parents (climb.ancestorOrSelf parents onPath)
  exact ⟨path', climb'⟩

section Climbing

variable (climbsFrom : ∀ y ∈ s.slabs.keys, ∃ path root, Climb s.slabs parentOf y path root)
include climbsFrom

private theorem sameOwner_of_climbs {p x : StorageID} {slab slab' : Slab} (foundP : s.slabs.lookup p = some slab)
    (member : x ∈ slab.references) (foundX : s.slabs.lookup x = some slab') : slab'.id.address = slab.id.address := by
  obtain ⟨path, root, climb⟩ := climbsFrom x (BasicSlabStorage.mem_keys_of_lookup foundX)
  have parent := (parents x p).mpr ⟨slab, foundP, member⟩
  cases climb with
  | root parentless => rw [parent] at parentless; cases parentless
  | step parent' sameOwner =>
    rw [parent] at parent'
    cases parent'
    simpa [ownerOf, foundP, foundX] using sameOwner

private theorem acyclic_of_climbs {p x : StorageID} (ref : s.References p x) : ¬ s.AncestorOrSelf p x := by
  intro above
  have stored : x ∈ s.slabs.keys := by
    rcases Relation.ReflTransGen.cases_tail above with rfl | ⟨child, -, ref'⟩
    · exact ref.stored
    · exact ref'.stored
  obtain ⟨path, root, climb⟩ := climbsFrom x stored
  have parent := (parents x p).mpr ref
  cases climb with
  | root parentless => rw [parent] at parentless; cases parentless
  | step parent' sameOwner rest =>
    rw [parent] at parent'
    cases parent'
    obtain ⟨path', climb', suffix, -⟩ := rest.of_ancestorOrSelf parents above
    obtain ⟨same, -⟩ := climb'.unique (.step parent sameOwner rest)
    rw [same] at suffix
    exact absurd suffix.length_le (by simp)

end Climbing

/-- In a healthy graph every stored slab climbs, passing fewer parents than there
are stored slabs: each step leaves behind an ancestor the next slab does not have. -/
theorem climb_of_healthyGraph {n : Int} (healthy : s.HealthyGraph n) {x : StorageID} (stored : x ∈ s.slabs.keys) :
    ∃ path root, Climb s.slabs parentOf x path root ∧ path.length < s.slabs.keys.length := by
  classical
  let above : StorageID → Finset StorageID := fun y => s.slabs.keys.toFinset.filter (s.AncestorOrSelf y)
  have climbs : ∀ k, ∀ y ∈ s.slabs.keys, (above y).card ≤ k →
      ∃ path root, Climb s.slabs parentOf y path root ∧ path.length < (above y).card := by
    intro k
    induction k with
    | zero =>
      intro y stored bounded
      have self : y ∈ above y := Finset.mem_filter.mpr ⟨List.mem_toFinset.mpr stored, .refl⟩
      exact absurd (Finset.card_pos.mpr ⟨y, self⟩) (by omega)
    | succ k ih =>
      intro y stored bounded
      have self : y ∈ above y := Finset.mem_filter.mpr ⟨List.mem_toFinset.mpr stored, .refl⟩
      cases parent : parentOf.lookup y with
      | none => exact ⟨[], y, .root parent, Finset.card_pos.mpr ⟨y, self⟩⟩
      | some p =>
        have ref := (parents y p).mp parent
        have smaller : above p ⊂ above y := by
          refine Finset.ssubset_iff_of_subset (fun q member => ?_) |>.mpr ⟨y, self, fun member => ?_⟩
          · obtain ⟨listed, up⟩ := Finset.mem_filter.mp member
            exact Finset.mem_filter.mpr ⟨listed, Relation.ReflTransGen.head ref up⟩
          · exact healthy.acyclic p y ref (Finset.mem_filter.mp member).2
        have fewer := Finset.card_lt_card smaller
        obtain ⟨path, root, climb, short⟩ := ih p ref.stored (by omega)
        obtain ⟨slab, foundP, member⟩ := ref
        obtain ⟨slab', foundY⟩ : ∃ slab', s.slabs.lookup y = some slab' :=
          Option.isSome_iff_exists.mp (AList.lookup_isSome.mpr (AList.mem_keys.mp stored))
        have owners : ownerOf s.slabs y = ownerOf s.slabs p := by
          simp [ownerOf, foundY, foundP, healthy.sameOwner p y slab slab' foundP member foundY]
        exact ⟨p :: path, root, .step parent owners climb, by simp; omega⟩
  obtain ⟨path, root, climb, short⟩ := climbs _ x stored le_rfl
  have bounded : (above x).card ≤ s.slabs.keys.length :=
    (Finset.card_filter_le _ _).trans (List.toFinset_card_le _)
  exact ⟨path, root, climb, by omega⟩

end Graph

section Check

variable {ε : Type} {iterate : MapDataSlab → List (Except ε (Storable × Storable))} {s : BasicSlabStorage}
  {order : List StorageID} (plain : ∀ id slab, s.slabs.lookup id = some slab → slab.IsPlainArray)
  (listed : order.Perm s.slabs.keys)
include plain listed

/-- The first loop succeeds exactly when no id is referenced twice. -/
theorem collectParents_ok_iff_referencedOnce :
    (∃ result, collectParents iterate s.slabs order ∅ [] = .ok result) ↔
      (s.slabs.entries.flatMap fun e => e.2.references).Nodup := by
  rw [collectParents_ok_iff iterate plain, ← BasicSlabStorage.referencesAlong_keys]
  simp only [AList.not_mem_empty, not_false_eq_true, implies_true, and_true]
  exact (listed.flatMap_right _).nodup_iff

/-- After a successful first loop, the recorded parent of an id is the slab that
references it, and the leaves are the stored slabs that are not meta slabs, each once. -/
theorem collectParents_graph {parentOf : ParentMap} {leafs : List StorageID}
    (collected : collectParents iterate s.slabs order ∅ [] = .ok (parentOf, leafs)) :
    (∀ x p, parentOf.lookup x = some p ↔ s.References p x) ∧ leafs.Nodup ∧
      ∀ leaf, leaf ∈ leafs ↔ ∃ slab, s.slabs.lookup leaf = some slab ∧ slab.isLeaf := by
  obtain ⟨lookups, rfl⟩ := collectParents_result iterate plain collected
  refine ⟨fun x p => ?_, ?_, fun leaf => ?_⟩
  · rw [lookups]
    simp only [AList.lookup_empty, reduceCtorEq, false_or, listed.mem_iff]
    exact ⟨fun ⟨_, ref⟩ => ref, fun ref => ⟨ref.stored, ref⟩⟩
  · exact ((listed.nodup_iff).mpr s.slabs.keys_nodup).filter _
  · simp only [List.nil_append, List.mem_filter, listed.mem_iff, leafAt]
    constructor
    · rintro ⟨-, isLeaf⟩
      cases found : s.slabs.lookup leaf with
      | none => simp [found] at isLeaf
      | some slab => exact ⟨slab, rfl, by simpa [found] using isLeaf⟩
    · rintro ⟨slab, found, leaf⟩
      exact ⟨BasicSlabStorage.mem_keys_of_lookup found, by simp [found, leaf]⟩

end Check

section Walks

variable {s : BasicSlabStorage} {parentOf : ParentMap} {leafs : List StorageID}
  (parents : ∀ x p, parentOf.lookup x = some p ↔ s.References p x)
  (leafsIff : ∀ leaf, leaf ∈ leafs ↔ ∃ slab, s.slabs.lookup leaf = some slab ∧ slab.isLeaf)
include parents leafsIff

private theorem onClimb_stored {leaf q : StorageID} (member : leaf ∈ leafs) (onClimb : OnClimb s.slabs parentOf leaf q) :
    q ∈ s.slabs.keys := by
  obtain ⟨path, root, climb, rfl | onPath⟩ := onClimb
  · obtain ⟨slab, found, -⟩ := (leafsIff q).mp member
    exact BasicSlabStorage.mem_keys_of_lookup found
  · obtain ⟨child, parent⟩ := climb.parent_of_mem onPath
    exact ((parents child q).mp parent).stored

/-- When the climbs from the leaves cover the stored slabs, their roots are the
stored slabs nothing references. -/
theorem roots_eq_unreferenced {roots : Finset StorageID}
    (covered : ∀ y ∈ s.slabs.keys, ∃ leaf ∈ leafs, OnClimb s.slabs parentOf leaf y)
    (rootsIff : ∀ q, q ∈ roots ↔ q ∈ (∅ : Finset StorageID) ∨ ∃ leaf ∈ leafs, ∃ path, Climb s.slabs parentOf leaf path q) :
    roots = (s.slabs.keys.filter fun x => !s.referenced x).toFinset := by
  ext r
  simp only [rootsIff, Finset.not_mem_empty, false_or, List.mem_toFinset, List.mem_filter, Bool.not_eq_true',
    BasicSlabStorage.referenced_eq_false_iff]
  constructor
  · rintro ⟨leaf, member, path, climb⟩
    refine ⟨onClimb_stored parents leafsIff member ⟨path, r, climb, climb.root_mem⟩, fun p ref => ?_⟩
    have recorded := (parents r p).mpr ref
    rw [climb.root_parentless] at recorded
    cases recorded
  · rintro ⟨stored, unreferenced⟩
    obtain ⟨leaf, member, path, root, climb, onPath⟩ := covered r stored
    obtain ⟨path', climb'⟩ := climb.of_onClimb parents onPath
    cases climb' with
    | root => exact ⟨leaf, member, path, climb⟩
    | step parent => exact absurd ((parents _ _).mp parent) (unreferenced _)

end Walks

section Characterisation

variable {ε : Type} {iterate : MapDataSlab → List (Except ε (Storable × Storable))} {s : BasicSlabStorage}
  {order : List StorageID} (plain : ∀ id slab, s.slabs.lookup id = some slab → slab.IsPlainArray)
  (listed : order.Perm s.slabs.keys)
include plain listed

/-- On a healthy graph `CheckHealth` returns nil once each walk has more steps than
there are slabs. -/
theorem checkHealth_of_healthyGraph {n : Int} (healthy : s.HealthyGraph n) {fuel : Nat}
    (enough : s.slabs.keys.length < fuel) : s.checkHealth iterate order fuel n = some (.ok ()) := by
  obtain ⟨⟨parentOf, leafs⟩, collected⟩ := (collectParents_ok_iff_referencedOnce plain listed).mpr healthy.referencedOnce
  obtain ⟨parents, distinct, leafsIff⟩ := collectParents_graph plain listed collected
  have climbs : ∀ leaf ∈ leafs, ∃ path root, Climb s.slabs parentOf leaf path root ∧ path.length < fuel := by
    intro leaf member
    obtain ⟨slab, found, -⟩ := (leafsIff leaf).mp member
    obtain ⟨path, root, climb, short⟩ :=
      climb_of_healthyGraph parents healthy (BasicSlabStorage.mem_keys_of_lookup found)
    exact ⟨path, root, climb, by omega⟩
  have notParents : ∀ leaf ∈ leafs, ∀ id, parentOf.lookup id ≠ some leaf := by
    intro leaf member id recorded
    obtain ⟨slab, found, isLeaf⟩ := (leafsIff leaf).mp member
    obtain ⟨slab', found', ref⟩ := (parents id leaf).mp recorded
    rw [found] at found'
    cases found'
    rw [Slab.references_of_isLeaf (plain leaf slab found) isLeaf] at ref
    cases ref
  obtain ⟨visited, roots, walked⟩ : ∃ visited roots,
      (walkLeaves s.slabs parentOf fuel leafs ∅ ∅ : Option (Except (CheckHealthError ε) _)) =
        some (.ok (visited, roots)) :=
    walkLeaves_of_climbs distinct notParents climbs (fun _ _ => Finset.not_mem_empty _) ∅
  obtain ⟨-, visitedIff, rootsIff⟩ := climbs_of_walkLeaves walked
  have covered : ∀ y ∈ s.slabs.keys, ∃ leaf ∈ leafs, OnClimb s.slabs parentOf leaf y := by
    intro y stored
    obtain ⟨leaf, slab, found, isLeaf, above⟩ := healthy.grounded y stored
    have member := (leafsIff leaf).mpr ⟨slab, found, isLeaf⟩
    obtain ⟨path, root, climb, -⟩ := climbs leaf member
    obtain ⟨-, -, -, onPath⟩ := climb.of_ancestorOrSelf parents above
    exact ⟨leaf, member, path, root, climb, onPath⟩
  have visitedAll : visited = s.slabs.keys.toFinset := by
    ext q
    simp only [visitedIff, Finset.not_mem_empty, false_or, List.mem_toFinset]
    exact ⟨fun ⟨leaf, member, onClimb⟩ => onClimb_stored parents leafsIff member onClimb, covered q⟩
  have rootsAll := roots_eq_unreferenced parents leafsIff covered rootsIff
  unfold BasicSlabStorage.checkHealth
  rw [collected]
  simp only [walked, visitedAll, rootsAll, List.toFinset_card_of_nodup s.slabs.keys_nodup,
    List.toFinset_card_of_nodup (s.slabs.keys_nodup.filter _), healthy.rootCount]
  simp

/-- The reference graph of a storage on which `CheckHealth` returns nil is healthy. -/
theorem healthyGraph_of_checkHealth {fuel : Nat} {n : Int}
    (accepted : s.checkHealth iterate order fuel n = some (.ok ())) : s.HealthyGraph n := by
  unfold BasicSlabStorage.checkHealth at accepted
  split at accepted
  · cases accepted
  · rename_i parentOf leafs collected
    obtain ⟨parents, -, leafsIff⟩ := collectParents_graph plain listed collected
    split at accepted
    · cases accepted
    · cases accepted
    · rename_i visited roots walked
      obtain ⟨climbs, visitedIff, rootsIff⟩ := climbs_of_walkLeaves walked
      split at accepted
      · cases accepted
      · rename_i allVisited
        have subset : visited ⊆ s.slabs.keys.toFinset := fun q member => by
          obtain ⟨leaf, leafMember, onClimb⟩ := ((visitedIff q).mp member).resolve_left (Finset.not_mem_empty _)
          exact List.mem_toFinset.mpr (onClimb_stored parents leafsIff leafMember onClimb)
        have visitedAll : visited = s.slabs.keys.toFinset :=
          Finset.eq_of_subset_of_card_le subset (by rw [List.toFinset_card_of_nodup s.slabs.keys_nodup]; omega)
        have covered : ∀ y ∈ s.slabs.keys, ∃ leaf ∈ leafs, OnClimb s.slabs parentOf leaf y := fun y stored =>
          ((visitedIff y).mp (visitedAll ▸ List.mem_toFinset.mpr stored)).resolve_left (Finset.not_mem_empty _)
        have climbsFrom : ∀ y ∈ s.slabs.keys, ∃ path root, Climb s.slabs parentOf y path root := fun y stored => by
          obtain ⟨leaf, -, path, root, climb, onPath⟩ := covered y stored
          obtain ⟨path', climb'⟩ := climb.of_onClimb parents onPath
          exact ⟨path', root, climb'⟩
        split at accepted
        · cases accepted
        · rename_i rootCount
          refine ⟨(collectParents_ok_iff_referencedOnce plain listed).mp ⟨_, collected⟩,
            fun _ _ _ _ => sameOwner_of_climbs parents climbsFrom, fun _ _ => acyclic_of_climbs parents climbsFrom,
            ?_, ?_⟩
          · intro y stored
            obtain ⟨leaf, member, path, root, climb, onPath⟩ := covered y stored
            obtain ⟨slab, found, isLeaf⟩ := (leafsIff leaf).mp member
            exact ⟨leaf, slab, found, isLeaf, climb.ancestorOrSelf parents onPath⟩
          · rw [← List.toFinset_card_of_nodup (s.slabs.keys_nodup.filter _),
              ← roots_eq_unreferenced parents leafsIff covered rootsIff]
            omega

/-- On storages of array slabs and `StorableSlab`s whose data slabs hold plain
values, `CheckHealth(n)` returns nil, for some bound on its walks and then for every
larger one, exactly when the reference graph is healthy with `n` roots. The storages
are those whose child ids with no stored slab carry their parent's address: on a child
at another address the doc comment, which says the addresses are compared, and the
code, which never looks such an id up, disagree. -/
theorem checkHealth_eq_ok_iff_healthyGraph
    (_danglingOwned : ∀ p x slab, s.slabs.lookup p = some slab → x ∈ slab.references → s.slabs.lookup x = none →
      x.address = slab.id.address) (n : Int) :
    (∃ fuel, s.checkHealth iterate order fuel n = some (.ok ())) ↔ s.HealthyGraph n :=
  ⟨fun ⟨_, accepted⟩ => healthyGraph_of_checkHealth plain listed accepted,
    fun healthy => ⟨_, checkHealth_of_healthyGraph plain listed healthy (Nat.lt_succ_self _)⟩⟩

end Characterisation

/-- The address of the slabs of the storages below. -/
def healthAddress : Address := Bytes8.ofUint64 1

def metaID : StorageID := ⟨healthAddress, Bytes8.ofUint64 1⟩

def leafID : StorageID := ⟨healthAddress, Bytes8.ofUint64 2⟩

def missingID : StorageID := ⟨healthAddress, Bytes8.ofUint64 3⟩

/-- A meta slab whose children are a stored `StorableSlab` and an id with no slab. -/
def danglingChild : BasicSlabStorage :=
  ⟨((∅ : AList (fun _ : StorageID => Slab)).insert metaID
      (.arrayMeta ⟨⟨metaID, 0, 0⟩, [⟨leafID, 0, 0⟩, ⟨missingID, 0, 0⟩], none⟩)).insert leafID
      (.storable ⟨leafID, .value 0⟩), ∅⟩

/-- An array data slab holding a `StorageIDStorable` reference to a stored `StorableSlab`. -/
def storageIDElement : BasicSlabStorage :=
  ⟨((∅ : AList (fun _ : StorageID => Slab)).insert metaID
      (.arrayData ⟨⟨metaID, 0, 1⟩, storageIDUndefined, [.storageID leafID], none⟩)).insert leafID
      (.storable ⟨leafID, .value 0⟩), ∅⟩

/-- `CheckHealth(1)` returns nil on a storage whose meta slab references an id with no
stored slab; and it counts two roots on a storage whose data slab references the
other slab by a `StorageIDStorable`, a reference it does not read. -/
theorem checkHealth_accepts_dangling_reference :
    (danglingChild.slabs.lookup metaID).map Slab.references = some [leafID, missingID] ∧
    danglingChild.slabs.lookup missingID = none ∧
    danglingChild.checkHealth (fun _ => ([] : List (Except Unit _))) danglingChild.slabs.keys 2 1 = some (.ok ()) ∧
    (storageIDElement.slabs.lookup metaID).map Slab.references = some [leafID] ∧
    storageIDElement.checkHealth (fun _ => ([] : List (Except Unit _))) storageIDElement.slabs.keys 2 1 =
      some (.error (.rootCount 1 2)) :=
  ⟨rfl, rfl, rfl, rfl, rfl⟩

private theorem danglingChild_plain : ∀ id slab, danglingChild.slabs.lookup id = some slab → slab.IsPlainArray := by
  intro id slab found
  have listed : ⟨id, slab⟩ ∈ danglingChild.slabs.entries := AList.mem_lookup_iff.mp found
  have entries : danglingChild.slabs.entries =
      [⟨leafID, .storable ⟨leafID, .value 0⟩⟩,
        ⟨metaID, .arrayMeta ⟨⟨metaID, 0, 0⟩, [⟨leafID, 0, 0⟩, ⟨missingID, 0, 0⟩], none⟩⟩] := rfl
  rw [entries] at listed
  rcases List.mem_pair.mp listed with same | same <;> cases same <;> trivial

private theorem danglingChild_owned (p x : StorageID) (slab : Slab) (found : danglingChild.slabs.lookup p = some slab)
    (member : x ∈ slab.references) (missing : danglingChild.slabs.lookup x = none) : x.address = slab.id.address := by
  have listed : ⟨p, slab⟩ ∈ danglingChild.slabs.entries := AList.mem_lookup_iff.mp found
  have entries : danglingChild.slabs.entries =
      [⟨leafID, .storable ⟨leafID, .value 0⟩⟩,
        ⟨metaID, .arrayMeta ⟨⟨metaID, 0, 0⟩, [⟨leafID, 0, 0⟩, ⟨missingID, 0, 0⟩], none⟩⟩] := rfl
  rw [entries] at listed
  rcases List.mem_pair.mp listed with same | same <;> cases same
  · exact absurd member (List.not_mem_nil x)
  · rcases List.mem_pair.mp member with rfl | rfl
    · cases missing
    · rfl

theorem checkHealth_eq_ok_iff_healthyGraph_of_danglingChild :
    (∀ p x slab, danglingChild.slabs.lookup p = some slab → x ∈ slab.references → danglingChild.slabs.lookup x = none →
      x.address = slab.id.address) ∧
    ((∃ fuel, danglingChild.checkHealth (fun _ => ([] : List (Except Unit _))) danglingChild.slabs.keys fuel 1 =
      some (.ok ())) ↔ danglingChild.HealthyGraph 1) :=
  ⟨danglingChild_owned, checkHealth_eq_ok_iff_healthyGraph danglingChild_plain (List.Perm.refl _) danglingChild_owned 1⟩

/-- `CheckHealth`'s verdict does not depend on Go's map iteration order: once it returns
nil for one order, it returns nil for every order, with walks longer than there are
slabs. -/
theorem checkHealth_ok_of_any_order {ε : Type} {iterate : MapDataSlab → List (Except ε (Storable × Storable))}
    {s : BasicSlabStorage} (plain : ∀ id slab, s.slabs.lookup id = some slab → slab.IsPlainArray)
    {order order' : List StorageID} (listed : order.Perm s.slabs.keys) (listed' : order'.Perm s.slabs.keys)
    {fuel fuel' : Nat} {n : Int} (accepted : s.checkHealth iterate order fuel n = some (.ok ()))
    (enough : s.slabs.keys.length < fuel') : s.checkHealth iterate order' fuel' n = some (.ok ()) :=
  checkHealth_of_healthyGraph plain listed' (healthyGraph_of_checkHealth plain listed accepted) enough

theorem checkHealth_ok_of_any_order_of_danglingChild :
    (∀ id slab, danglingChild.slabs.lookup id = some slab → slab.IsPlainArray) ∧
      danglingChild.slabs.keys.reverse.Perm danglingChild.slabs.keys ∧
      danglingChild.checkHealth (fun _ => ([] : List (Except Unit _))) danglingChild.slabs.keys 2 1 = some (.ok ()) ∧
      danglingChild.slabs.keys.length < 3 ∧
      danglingChild.checkHealth (fun _ => ([] : List (Except Unit _))) danglingChild.slabs.keys.reverse 3 1 =
        some (.ok ()) := by
  have accepted : danglingChild.checkHealth (fun _ => ([] : List (Except Unit _))) danglingChild.slabs.keys 2 1 =
      some (.ok ()) := rfl
  have enough : danglingChild.slabs.keys.length < 3 := by decide
  exact ⟨danglingChild_plain, List.reverse_perm _, accepted, enough,
    checkHealth_ok_of_any_order danglingChild_plain (.refl _) (List.reverse_perm _) accepted enough⟩

end Atree
