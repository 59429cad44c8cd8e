import Atree.Health.Walk

/-! The first loop of `CheckHealth` on array slabs and `StorableSlab`s of plain values:
when no id is referenced twice it records the reference graph and collects the leaves. -/

namespace Atree

/-- The references of a slab in the reference graph: the children headers of an
`ArrayMetaDataSlab` and the `StorageIDStorable` elements of an `ArrayDataSlab`, as
`PrintArray` reads them. -/
def Slab.references : Slab → List StorageID
  | .arrayMeta v => v.childrenHeaders.map (·.id)
  | .arrayData v => v.elements.filterMap Storable.storageIDStorable
  | _ => []

/-- An array slab or a `StorableSlab`, whose elements, for a data slab, are plain
values: neither `StorableSlab` values, which the array branch of `CheckHealth` reads
as references, nor `StorageIDStorable`s, which `PrintArray` reads as references. -/
def Slab.IsPlainArray : Slab → Prop
  | .arrayMeta _ | .storable _ => True
  | .arrayData v => ∀ e ∈ v.elements, ∃ size, e = .value size
  | _ => False

/-- The slabs the walks start from: all but meta slabs. -/
def Slab.isLeaf : Slab → Bool
  | .arrayMeta _ | .mapMeta _ => false
  | _ => true

/-- Whether the slab stored under `id` is a leaf. -/
def leafAt (slabs : AList (fun _ : StorageID => Slab)) (id : StorageID) : Bool :=
  ((slabs.lookup id).map Slab.isLeaf).getD false

/-- The references of the slabs stored under `ids`, in order. -/
def referencesAlong (slabs : AList (fun _ : StorageID => Slab)) (ids : List StorageID) : List StorageID :=
  ids.flatMap fun id => ((slabs.lookup id).map Slab.references).getD []

private theorem referencesAlong_cons (slabs : AList (fun _ : StorageID => Slab)) (id : StorageID) (ids : List StorageID) :
    referencesAlong slabs (id :: ids) = ((slabs.lookup id).map Slab.references).getD [] ++ referencesAlong slabs ids :=
  List.flatMap_cons _ _ _

theorem Slab.references_of_isLeaf {slab : Slab} (plain : slab.IsPlainArray) (leaf : slab.isLeaf = true) :
    slab.references = [] := by
  cases slab with
  | arrayData v =>
    simp only [references, List.filterMap_eq_nil_iff]
    intro e member
    obtain ⟨size, rfl⟩ := plain e member
    rfl
  | storable => rfl
  | arrayMeta => cases leaf
  | mapData => cases plain
  | mapMeta => cases plain

section FirstLoop

variable {ε : Type} (iterate : MapDataSlab → List (Except ε (Storable × Storable)))

private theorem slabSteps_of_plain {slab : Slab} (plain : slab.IsPlainArray) :
    slabSteps iterate slab = (slab.references.map .child, slab.isLeaf) := by
  cases slab with
  | arrayData v =>
    have noSlabs : v.externalIDs = [] := by
      simp only [ArrayDataSlab.externalIDs, List.filterMap_eq_nil_iff]
      intro e member
      obtain ⟨size, rfl⟩ := plain e member
      rfl
    rw [Slab.references_of_isLeaf plain rfl]
    simp [slabSteps, noSlabs, Slab.isLeaf]
  | arrayMeta v => simp [slabSteps, Slab.references, Slab.isLeaf]
  | storable => rfl
  | mapData => cases plain
  | mapMeta => cases plain

private theorem recordSteps_children (parent : StorageID) (ids : List StorageID) (parentOf : ParentMap) :
    (∃ parentOf', (recordSteps parent (ids.map .child) parentOf : Except (CheckHealthError ε) _) = .ok parentOf') ↔
      ids.Nodup ∧ ∀ id ∈ ids, id ∉ parentOf := by
  induction ids generalizing parentOf with
  | nil => simp [recordSteps]
  | cons id ids ih =>
    by_cases recorded : id ∈ parentOf
    · simp [recordSteps, recorded]
    · simp only [List.map_cons, recordSteps, if_neg recorded, ih, List.nodup_cons, List.mem_cons,
        forall_eq_or_imp, AList.mem_insert, not_or]
      constructor
      · rintro ⟨distinct, fresh⟩
        exact ⟨⟨fun member => (fresh id member).1 rfl, distinct⟩, recorded, fun other member => (fresh other member).2⟩
      · rintro ⟨⟨absent, distinct⟩, -, fresh⟩
        exact ⟨distinct, fun other member => ⟨fun same => absent (same ▸ member), fresh other member⟩⟩

private theorem lookup_recordSteps_children {parent : StorageID} {ids : List StorageID} {parentOf parentOf' : ParentMap}
    (recorded : (recordSteps parent (ids.map .child) parentOf : Except (CheckHealthError ε) _) = .ok parentOf')
    (x : StorageID) : parentOf'.lookup x = if x ∈ ids then some parent else parentOf.lookup x := by
  induction ids generalizing parentOf with
  | nil => cases recorded; simp
  | cons id ids ih =>
    simp only [List.map_cons, recordSteps] at recorded
    split at recorded
    · cases recorded
    · rw [ih recorded]
      by_cases same : x = id
      · subst same; simp [AList.lookup_insert]
      · simp [same, AList.lookup_insert_ne same]

variable {slabs : AList (fun _ : StorageID => Slab)}

/-- The first loop over plain array slabs succeeds exactly when no id is referenced
twice and none was recorded before. -/
theorem collectParents_ok_iff {ids : List StorageID} (plain : ∀ id slab, slabs.lookup id = some slab → slab.IsPlainArray)
    (parentOf : ParentMap) (leafs : List StorageID) :
    (∃ result, collectParents iterate slabs ids parentOf leafs = .ok result) ↔
      (referencesAlong slabs ids).Nodup ∧ ∀ x ∈ referencesAlong slabs ids, x ∉ parentOf := by
  induction ids generalizing parentOf leafs with
  | nil => exact ⟨fun _ => ⟨List.nodup_nil, nofun⟩, fun _ => ⟨_, rfl⟩⟩
  | cons id ids ih =>
    rw [referencesAlong_cons]
    cases found : slabs.lookup id with
    | none =>
      rw [Option.map_none', Option.getD_none, List.nil_append, ← ih parentOf leafs]
      simp only [collectParents, found]
    | some slab =>
      rw [Option.map_some', Option.getD_some]
      simp only [collectParents, found, slabSteps_of_plain iterate (plain id slab found)]
      cases recorded : (recordSteps id (slab.references.map .child) parentOf : Except (CheckHealthError ε) _) with
      | error err =>
        have failed : ¬ (slab.references.Nodup ∧ ∀ x ∈ slab.references, x ∉ parentOf) :=
          fun ok => by obtain ⟨_, recorded'⟩ := (recordSteps_children id _ parentOf).mpr ok; rw [recorded] at recorded'; cases recorded'
        simp only [List.nodup_append, List.mem_append]
        constructor
        · rintro ⟨_, ⟨⟩⟩
        · rintro ⟨⟨distinct, -, -⟩, fresh⟩
          exact absurd ⟨distinct, fun x member => fresh x (.inl member)⟩ failed
      | ok parentOf' =>
        have lookups := lookup_recordSteps_children recorded
        obtain ⟨distinct, fresh⟩ := (recordSteps_children id _ parentOf).mp ⟨_, recorded⟩
        rw [ih parentOf']
        simp only [List.nodup_append, List.mem_append, List.Disjoint]
        have fresh' : ∀ x, x ∉ parentOf' ↔ x ∉ slab.references ∧ x ∉ parentOf := fun x => by
          rw [← AList.lookup_eq_none, ← AList.lookup_eq_none, lookups]
          by_cases ref : x ∈ slab.references <;> simp [ref]
        constructor
        · rintro ⟨rest, restFresh⟩
          refine ⟨⟨distinct, rest, fun x here there => ((fresh' x).mp (restFresh x there)).1 here⟩, ?_⟩
          rintro x (here | there)
          · exact fresh x here
          · exact ((fresh' x).mp (restFresh x there)).2
        · rintro ⟨⟨-, rest, disjoint⟩, allFresh⟩
          exact ⟨rest, fun x there => (fresh' x).mpr ⟨fun here => disjoint here there, allFresh x (.inr there)⟩⟩

/-- What a successful first loop over plain array slabs recorded: each reference of
each slab under `ids`, on top of what was recorded before, and the leaves among them. -/
theorem collectParents_result {ids : List StorageID} (plain : ∀ id slab, slabs.lookup id = some slab → slab.IsPlainArray)
    {parentOf parentOf' : ParentMap} {leafs leafs' : List StorageID}
    (collected : collectParents iterate slabs ids parentOf leafs = .ok (parentOf', leafs')) :
    (∀ x p, parentOf'.lookup x = some p ↔
      parentOf.lookup x = some p ∨ (p ∈ ids ∧ ∃ slab, slabs.lookup p = some slab ∧ x ∈ slab.references)) ∧
    leafs' = leafs ++ ids.filter (leafAt slabs) := by
  induction ids generalizing parentOf leafs with
  | nil => cases collected; simp
  | cons id ids ih =>
    cases found : slabs.lookup id with
    | none =>
      simp only [collectParents, found] at collected
      obtain ⟨lookups, rfl⟩ := ih collected
      refine ⟨fun x p => ?_, by simp [leafAt, found]⟩
      rw [lookups]
      constructor
      · rintro (before | ⟨member, slab, stored, ref⟩)
        · exact .inl before
        · exact .inr ⟨List.mem_cons_of_mem _ member, slab, stored, ref⟩
      · rintro (before | ⟨member, slab, stored, ref⟩)
        · exact .inl before
        · rcases List.mem_cons.mp member with rfl | later
          · rw [found] at stored; cases stored
          · exact .inr ⟨later, slab, stored, ref⟩
    | some slab =>
      simp only [collectParents, found, slabSteps_of_plain iterate (plain id slab found)] at collected
      split at collected
      · cases collected
      · rename_i parentOf₁ recorded
        obtain ⟨lookups, rfl⟩ := ih collected
        have recordedLookups := lookup_recordSteps_children recorded
        obtain ⟨-, fresh⟩ := (recordSteps_children id _ parentOf).mp ⟨_, recorded⟩
        refine ⟨fun x p => ?_, by cases leaf : slab.isLeaf <;> simp [leafAt, found, leaf]⟩
        rw [lookups, recordedLookups]
        by_cases ref : x ∈ slab.references
        · have unrecorded : parentOf.lookup x = none := AList.lookup_eq_none.mpr (fresh x ref)
          rw [if_pos ref, unrecorded]
          constructor
          · rintro (same | ⟨member, other, stored, ref'⟩)
            · cases same
              exact .inr ⟨List.mem_cons_self _ _, slab, found, ref⟩
            · exact .inr ⟨List.mem_cons_of_mem _ member, other, stored, ref'⟩
          · rintro (recorded | ⟨member, other, stored, ref'⟩)
            · cases recorded
            · rcases List.mem_cons.mp member with rfl | member
              · exact .inl rfl
              · exact .inr ⟨member, other, stored, ref'⟩
        · simp only [if_neg ref, List.mem_cons]
          constructor
          · rintro (before | ⟨member, other, stored, ref'⟩)
            · exact .inl before
            · exact .inr ⟨.inr member, other, stored, ref'⟩
          · rintro (before | ⟨rfl | member, other, stored, ref'⟩)
            · exact .inl before
            · rw [found] at stored; cases stored; exact absurd ref' ref
            · exact .inr ⟨member, other, stored, ref'⟩

end FirstLoop

end Atree
