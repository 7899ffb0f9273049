import Mathlib.Logic.Function.Basic
import ThreeAddress.Proofs.OrderedMap.Reading
import ThreeAddress.Proofs.OrderedMap.Tables

/-!
Maps under any history of operations. A family of maps, known by name, runs beside a family of tables. Starting
with nothing, no history fails, the answers are those of the tables, and at its end every map is a balanced
search tree that represents its table and is read in the order of keys.
-/

set_option autoImplicit false

namespace ThreeAddress

variable {ι κ ν : Type}

-- The first name is the map that the step changes. A map is rebuilt by draining it and building one from what came out.
inductive MapStep (ι κ ν : Type) where
  | insert (name : ι) (key : κ) (value : ν)
  | set (name : ι) (key : κ) (value : Option ν)
  | erase (name : ι) (key : κ)
  | clear (name : ι)
  | extend (name : ι) (entries : List (κ × ν))
  | clone (name source : ι)
  | union (name other : ι)
  | inter (name other : ι)
  | agreeing (name other : ι)
  | rebuild (name : ι)

namespace MapStep

def target : MapStep ι κ ν → ι
  | insert name .. | set name .. | erase name .. | clear name | extend name .. | clone name .. | union name ..
  | inter name .. | agreeing name .. | rebuild name => name

variable [Ord κ] [BEq ν]

def onMaps (maps : ι → OrderedMap κ ν) : MapStep ι κ ν → Except Fault (OrderedMap κ ν × Option ν)
  | insert name key value => .ok ((maps name).insert key value)
  | set name key value => .ok ((maps name).set key value)
  | erase name key => .ok ((maps name).erase key)
  | clear _ => .ok (.empty, none)
  | extend name entries => .ok ((maps name).insertMany entries, none)
  | clone _ source => .ok (maps source, none)
  | union name other => .ok (((maps name).union (maps other)).1, none)
  | inter name other => .ok (((maps name).inter (maps other)).1, none)
  | agreeing name other => .ok (((maps name).agreeing (maps other)).1, none)
  | rebuild name => do
      let map ← OrderedMap.ofSorted (maps name).toList
      return (map, none)

def onTables (tables : ι → Table κ ν) : MapStep ι κ ν → Table κ ν × Option ν
  | insert name key value => ((tables name).write key (some value), tables name key)
  | set name key value => ((tables name).write key value, tables name key)
  | erase name key => ((tables name).write key none, tables name key)
  | clear _ => (.none, none)
  | extend name entries => ((tables name).writeMany entries, none)
  | clone _ source => (tables source, none)
  | union name other => ((tables name).union (tables other), none)
  | inter name other => ((tables name).inter (tables other), none)
  | agreeing name other => ((tables name).agreeing (tables other), none)
  | rebuild name => (tables name, none)

variable [DecidableEq ι]

def runMaps (maps : ι → OrderedMap κ ν) :
    List (MapStep ι κ ν) → Except Fault ((ι → OrderedMap κ ν) × List (Option ν))
  | [] => .ok (maps, [])
  | step :: rest => do
      let (map, answer) ← step.onMaps maps
      let (final, answers) ← runMaps (Function.update maps step.target map) rest
      return (final, answer :: answers)

def runTables (tables : ι → Table κ ν) : List (MapStep ι κ ν) → (ι → Table κ ν) × List (Option ν)
  | [] => (tables, [])
  | step :: rest =>
      let (table, answer) := step.onTables tables
      let (final, answers) := runTables (Function.update tables step.target table) rest
      (final, answer :: answers)

theorem run_maps_related (related : OrderedMap κ ν → Table κ ν → Prop)
    (carries : ∀ (step : MapStep ι κ ν) (maps : ι → OrderedMap κ ν) (tables : ι → Table κ ν),
      (∀ name, related (maps name) (tables name)) →
        ∃ map, step.onMaps maps = .ok (map, (step.onTables tables).2) ∧ related map (step.onTables tables).1)
    (steps : List (MapStep ι κ ν)) (maps : ι → OrderedMap κ ν) (tables : ι → Table κ ν)
    (before : ∀ name, related (maps name) (tables name)) :
    ∃ final, runMaps maps steps = .ok (final, (runTables tables steps).2) ∧
      ∀ name, related (final name) ((runTables tables steps).1 name) := by
  induction steps generalizing maps tables with
  | nil => exact ⟨maps, rfl, before⟩
  | cons step rest ih =>
    obtain ⟨map, changed, mapRelated⟩ := carries step maps tables before
    have updated (name : ι) : related (Function.update maps step.target map name)
        (Function.update tables step.target (step.onTables tables).1 name) := by
      by_cases here : name = step.target
      · simpa [here] using mapRelated
      · simpa [here] using before name
    obtain ⟨final, ran, finalRelated⟩ := ih _ _ updated
    refine ⟨final, ?_, finalRelated⟩
    simp only [runMaps, changed, bind, Except.bind, ran, runTables, pure, Except.pure]

variable [Std.TransOrd κ] [Std.LawfulEqOrd κ]

omit [DecidableEq ι] in
theorem on_maps_represents (step : MapStep ι κ ν) (maps : ι → OrderedMap κ ν) (tables : ι → Table κ ν)
    (represents : ∀ name, (maps name).Represents (tables name)) :
    ∃ map, step.onMaps maps = .ok (map, (step.onTables tables).2) ∧ map.Represents (step.onTables tables).1 := by
  have old (name : ι) (key : κ) (value : Option ν) : ((maps name).set key value).2 = tables name key :=
    ((maps name).set_old key value).trans (OrderedMap.get_table _ _ (represents name) key)
  have written (name : ι) (key : κ) (value : Option ν) : ∃ map, .ok ((maps name).set key value) =
      (.ok (map, tables name key) : Except Fault _) ∧ map.Represents ((tables name).write key value) :=
    ⟨_, congrArg Except.ok (Prod.ext rfl (old name key value)),
      OrderedMap.represents_set _ _ (represents name) key value⟩
  cases step with
  | insert name key value => exact written name key (some value)
  | set name key value => exact written name key value
  | erase name key => exact written name key none
  | clear name => exact ⟨_, rfl, OrderedMap.represents_empty⟩
  | extend name entries => exact ⟨_, rfl, OrderedMap.represents_insert_many _ _ (represents name) entries⟩
  | clone name source => exact ⟨_, rfl, represents source⟩
  | union name other => exact ⟨_, rfl, OrderedMap.represents_union _ _ _ _ (represents name) (represents other)⟩
  | inter name other => exact ⟨_, rfl, OrderedMap.represents_inter _ _ _ _ (represents name) (represents other)⟩
  | agreeing name other => exact ⟨_, rfl, OrderedMap.represents_agreeing _ _ _ _ (represents name) (represents other)⟩
  | rebuild name =>
    obtain ⟨map, built, kept⟩ := OrderedMap.represents_rebuild _ _ (represents name)
    exact ⟨map, by rw [onMaps, built]; rfl, kept⟩

theorem run_maps_represents (steps : List (MapStep ι κ ν)) (maps : ι → OrderedMap κ ν) (tables : ι → Table κ ν)
    (represents : ∀ name, (maps name).Represents (tables name)) :
    ∃ final, runMaps maps steps = .ok (final, (runTables tables steps).2) ∧
      ∀ name, (final name).Represents ((runTables tables steps).1 name) :=
  run_maps_related OrderedMap.Represents on_maps_represents steps maps tables represents

end MapStep

namespace OrderedMap

theorem histories_refine_tables [DecidableEq ι] [Ord κ] [Std.TransOrd κ] [Std.LawfulEqOrd κ] [BEq ν]
    (steps : List (MapStep ι κ ν)) :
    ∃ maps, MapStep.runMaps (fun _ => .empty) steps = .ok (maps, (MapStep.runTables (fun _ => .none) steps).2) ∧
      ∀ name, (maps name).Represents ((MapStep.runTables (fun _ => .none) steps).1 name) ∧
        (∀ key, (maps name).get? key = (MapStep.runTables (fun _ => .none) steps).1 name key ∧
          (maps name).contains key = ((MapStep.runTables (fun _ => .none) steps).1 name key).isSome) ∧
        ∀ count, (maps name).cursor.readings count =
          (List.range count).map fun index => ((maps name).toList.length - index, (maps name).toList[index]?) := by
  obtain ⟨maps, ran, represents⟩ :=
    MapStep.run_maps_represents steps (fun _ => .empty) (fun _ => .none) fun _ => represents_empty
  refine ⟨maps, ran, fun name => ⟨represents name, fun key => ?_, fun count => ?_⟩⟩
  · have found := get_table _ _ (represents name) key
    exact ⟨found, congrArg Option.isSome found⟩
  · rw [readings_cursor (maps name) (represents name).counted count, (represents name).counted]

-- Two maps: one loses a key and the other is cleared, met and built anew.
def exchange : List (MapStep Bool Nat Nat) :=
  [.extend true [(3, 30), (1, 10), (2, 20)], .clone false true, .insert true 2 21, .set false 3 none,
    .agreeing true false, .union true false, .erase true 2, .clear false, .rebuild true]

theorem exchange_refines_tables :
    Std.TransOrd Nat ∧ Std.LawfulEqOrd Nat ∧
      ∃ maps, MapStep.runMaps (fun _ => .empty) exchange =
          .ok (maps, [none, none, some 20, some 30, none, none, some 20, none, none]) ∧
        ∀ name, (maps name).Represents ((MapStep.runTables (fun _ => .none) exchange).1 name) := by
  obtain ⟨maps, ran, behaves⟩ := histories_refine_tables exchange
  exact ⟨inferInstance, inferInstance, maps, ran, fun name => (behaves name).1⟩

-- A map with a history of its own, beside the table that the same history leads to. To insert is to bind a key to a value
-- and to remove is to bind it to none; a list builds a map only if its keys ascend.
inductive Reached [Ord κ] [BEq ν] : OrderedMap κ ν → Table κ ν → Prop where
  | empty : Reached .empty .none
  | ofSorted (entries : List (κ × ν)) (map : OrderedMap κ ν) (built : ofSorted entries = .ok map) :
      Reached map (Table.none.writeMany entries)
  | set (map : OrderedMap κ ν) (table : Table κ ν) (before : Reached map table) (key : κ) (value : Option ν) :
      Reached (map.set key value).1 (table.write key value)
  | insertMany (map : OrderedMap κ ν) (table : Table κ ν) (before : Reached map table) (entries : List (κ × ν)) :
      Reached (map.insertMany entries) (table.writeMany entries)
  | union (map other : OrderedMap κ ν) (table otherTable : Table κ ν) (before : Reached map table)
      (otherBefore : Reached other otherTable) : Reached (map.union other).1 (table.union otherTable)
  | inter (map other : OrderedMap κ ν) (table otherTable : Table κ ν) (before : Reached map table)
      (otherBefore : Reached other otherTable) : Reached (map.inter other).1 (table.inter otherTable)
  | agreeing (map other : OrderedMap κ ν) (table otherTable : Table κ ν) (before : Reached map table)
      (otherBefore : Reached other otherTable) : Reached (map.agreeing other).1 (table.agreeing otherTable)
  | rebuild (map rebuilt : OrderedMap κ ν) (table : Table κ ν) (before : Reached map table)
      (built : OrderedMap.ofSorted map.toList = .ok rebuilt) : Reached rebuilt table

section Reached

variable [Ord κ] [Std.TransOrd κ] [Std.LawfulEqOrd κ]

theorem represents_of_sorted (entries : List (κ × ν)) (map : OrderedMap κ ν) (built : ofSorted entries = .ok map) :
    map.Represents (Table.none.writeMany entries) := by
  obtain ⟨ascends, rfl⟩ := (of_sorted_ok_iff entries map).mp built
  refine represents_of_ascending entries _ ascends fun key value => ?_
  rw [Table.write_many_eq_some_iff .none entries ascends]
  simp [Table.none]

variable [BEq ν]

theorem represents_reached (map : OrderedMap κ ν) (table : Table κ ν) (reached : Reached map table) : map.Represents table := by
  induction reached with
  | empty => exact represents_empty
  | ofSorted entries map built => exact represents_of_sorted entries map built
  | set map table _ key value ih => exact represents_set map table ih key value
  | insertMany map table _ entries ih => exact represents_insert_many map table ih entries
  | union map other table otherTable _ _ ih otherIh => exact represents_union map other table otherTable ih otherIh
  | inter map other table otherTable _ _ ih otherIh => exact represents_inter map other table otherTable ih otherIh
  | agreeing map other table otherTable _ _ ih otherIh => exact represents_agreeing map other table otherTable ih otherIh
  | rebuild map rebuilt table _ built ih =>
    obtain ⟨again, same, represents⟩ := represents_rebuild map table ih
    cases same.symm.trans built
    exact represents

theorem run_maps_reached [DecidableEq ι] (steps : List (MapStep ι κ ν)) (maps : ι → OrderedMap κ ν) (tables : ι → Table κ ν)
    (before : ∀ name, Reached (maps name) (tables name)) :
    ∃ final, MapStep.runMaps maps steps = .ok (final, (MapStep.runTables tables steps).2) ∧
      ∀ name, Reached (final name) ((MapStep.runTables tables steps).1 name) := by
  refine MapStep.run_maps_related Reached (fun step maps tables before => ?_) steps maps tables before
  obtain ⟨map, changed, _⟩ := step.on_maps_represents maps tables fun name => represents_reached _ _ (before name)
  refine ⟨map, changed, ?_⟩
  have becomes (result : OrderedMap κ ν × Option ν) (led : step.onMaps maps = .ok result) : result.1 = map :=
    congrArg Prod.fst (Except.ok.inj (led.symm.trans changed))
  cases step with
  | insert name key value => exact becomes _ rfl ▸ .set _ _ (before name) key (some value)
  | set name key value => exact becomes _ rfl ▸ .set _ _ (before name) key value
  | erase name key => exact becomes _ rfl ▸ .set _ _ (before name) key none
  | clear name => exact becomes _ rfl ▸ .empty
  | extend name entries => exact becomes _ rfl ▸ .insertMany _ _ (before name) entries
  | clone name source => exact becomes _ rfl ▸ before source
  | union name other => exact becomes _ rfl ▸ .union _ _ _ _ (before name) (before other)
  | inter name other => exact becomes _ rfl ▸ .inter _ _ _ _ (before name) (before other)
  | agreeing name other => exact becomes _ rfl ▸ .agreeing _ _ _ _ (before name) (before other)
  | rebuild name =>
    obtain ⟨rebuilt, built, _⟩ := represents_rebuild _ _ (represents_reached _ _ (before name))
    have same : rebuilt = map := becomes (rebuilt, none) (by simp only [MapStep.onMaps, built]; rfl)
    exact .rebuild _ _ _ (before name) (same ▸ built)

end Reached

end OrderedMap

end ThreeAddress
