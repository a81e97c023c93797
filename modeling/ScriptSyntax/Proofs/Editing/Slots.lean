import ScriptSyntax.Proofs.Editing.Acceptance
import ScriptSyntax.Proofs.Parallel.Views
import ScriptSyntax.Tree.Kind

/-!
# Slots that can be written

The slots of a shape are listed a second time, with every reference beside it what the shape
becomes when another reference is written in its place.  The list is made part by part, from
the fields of the shape in source order, and knows no positions; the children and the positions
they are counted by are not used.  It agrees with both: the slots hold the children in their
order, and to write through a slot is to set the child at its position and to leave the kind,
the tokens and the form of the shape alone.
-/

namespace ScriptSyntax

variable {Ref Part Whole : Type}

/-- A place that holds a reference, and the whole around it for each reference in this place. -/
structure Slot (Ref Whole : Type) where
  current : Ref
  write : Ref → Whole

namespace Slot

/-- A slot of a part is one of the whole. -/
def within (whole : Part → Whole) (slot : Slot Ref Part) : Slot Ref Whole :=
  ⟨slot.current, fun value => whole (slot.write value)⟩

/-- The slot of an optional reference, if there is one. -/
def ofOption (ref : Option Ref) : List (Slot Ref (Option Ref)) :=
  ref.toList.map fun current => ⟨current, some⟩

/-- The slots of a list of references. -/
def ofList : List Ref → List (Slot Ref (List Ref))
  | [] => []
  | ref :: refs => ⟨ref, fun value => value :: refs⟩ :: (ofList refs).map (within (ref :: ·))

end Slot

open Slot in
/-- The slots of the start of a loop. -/
def LoopInit.slots : LoopInit Ref → List (Slot Ref (LoopInit Ref))
  | .declarations entries => (ofList entries).map (within .declarations)
  | .expression value => [⟨value, .expression⟩]

namespace Shape

/-- The slots of an optional start of a loop. -/
def initSlots : Option (LoopInit Ref) → List (Slot Ref (Option (LoopInit Ref)))
  | none => []
  | some init => init.slots.map (.within some)

open Slot in
/-- The slots of a shape, in source order. -/
def slots : Shape Ref → List (Slot Ref (Shape Ref))
  | .root statements => (ofList statements).map (within .root)
  | .block statements => (ofList statements).map (within .block)
  | .leaf _ _ => []
  | .labelled label statement => [⟨statement, .labelled label⟩]
  | .debugger => []
  | .doWhile body condition =>
      [⟨body, fun value => .doWhile value condition⟩, ⟨condition, .doWhile body⟩]
  | .returns value => (ofOption value).map (within .returns)
  | .throws value => [⟨value, .throws⟩]
  | .varStatement declarations => (ofList declarations).map (within .varStatement)
  | .whileLoop condition body =>
      [⟨condition, fun value => .whileLoop value body⟩, ⟨body, .whileLoop condition⟩]
  | .withScope scope body =>
      [⟨scope, fun value => .withScope value body⟩, ⟨body, .withScope scope⟩]
  | .expression value => (ofOption value).map (within .expression)
  | .jump _ _ => []
  | .forIn varToken name source body =>
      [⟨source, fun value => .forIn varToken name value body⟩,
        ⟨body, .forIn varToken name source⟩]
  | .forLoop varToken init test step body =>
      (initSlots init).map (within fun init => .forLoop varToken init test step body) ++
        (ofOption test).map (within fun test => .forLoop varToken init test step body) ++
        (ofOption step).map (within fun step => .forLoop varToken init test step body) ++
        [⟨body, .forLoop varToken init test step⟩]
  | .function role name parameters body => [⟨body, .function role name parameters⟩]
  | .ifElse condition thenBranch elseBranch =>
      ⟨condition, fun value => .ifElse value thenBranch elseBranch⟩ ::
        ⟨thenBranch, fun value => .ifElse condition value elseBranch⟩ ::
        (ofOption elseBranch).map (within (.ifElse condition thenBranch))
  | .switch discriminant cases =>
      ⟨discriminant, fun value => .switch value cases⟩ ::
        (ofList cases).map (within (.switch discriminant))
  | .caseLabel test => [⟨test, .caseLabel⟩]
  | .defaultLabel => []
  | .tryCatch body handler finalizer =>
      ⟨body, fun value => .tryCatch value handler finalizer⟩ ::
        (handler.toList.map fun clause =>
          ⟨clause.2, fun value => .tryCatch body (some (clause.1, value)) finalizer⟩) ++
        (ofOption finalizer).map (within (.tryCatch body handler))
  | .parenthesized inner => [⟨inner, .parenthesized⟩]
  | .conditional test consequent alternate =>
      [⟨test, fun value => .conditional value consequent alternate⟩,
        ⟨consequent, fun value => .conditional test value alternate⟩,
        ⟨alternate, .conditional test consequent⟩]
  | .newObject callee arguments =>
      ⟨callee, fun value => .newObject value arguments⟩ ::
        (ofOption arguments).map (within (.newObject callee))
  | .unary side operator operand => [⟨operand, .unary side operator⟩]
  | .binary left operator right =>
      [⟨left, fun value => .binary value operator right⟩, ⟨right, .binary left operator⟩]
  | .exprList expressions => (ofList expressions).map (within .exprList)
  | .application callee arguments =>
      ⟨callee, fun value => .application value arguments⟩ ::
        (ofList arguments).map (within (.application callee))
  | .subscript target index =>
      [⟨target, fun value => .subscript value index⟩, ⟨index, .subscript target⟩]
  | .array elements => (ofList elements).map (within .array)
  | .object comment properties => (ofList properties).map (within (.object comment))
  | .declaration name initializer => (ofOption initializer).map (within (.declaration name))
  | .property name value => [⟨value, .property name⟩]

end Shape

/-! ## Slots and positions -/

/-- What is written at one position of a list. -/
theorem mapIdx_ite_eq_set (refs : List Ref) (index : Nat) (value : Ref) :
    (refs.mapIdx fun position ref => if position = index then value else ref) =
      refs.set index value := by
  apply List.ext_getElem?
  intro position
  rw [List.getElem?_mapIdx, List.getElem?_set]
  grind

namespace Slot

/-- The slots of a list write at the positions of its members. -/
theorem ofList_eq (refs : List Ref) :
    ofList refs = refs.mapIdx fun index ref => ⟨ref, refs.set index⟩ := by
  induction refs with
  | nil => rfl
  | cons ref refs ih =>
      rw [ofList, ih, List.mapIdx_cons]
      congr 1
      apply List.ext_getElem?
      intro index
      simp only [List.getElem?_map, List.getElem?_mapIdx, Option.map_map]
      rfl

/-- The slots of a part that are counted by positions, as slots of the whole. -/
theorem map_within_mapIdx (whole : Part → Whole) (write : Nat → Ref → Part) (refs : List Ref) :
    (refs.mapIdx fun index ref => (⟨ref, write index⟩ : Slot Ref Part)).map (within whole) =
      refs.mapIdx fun index ref => ⟨ref, fun value => whole (write index value)⟩ := by
  apply List.ext_getElem?
  intro index
  simp only [List.getElem?_map, List.getElem?_mapIdx, Option.map_map]
  rfl

theorem map_within_ofList (whole : List Ref → Whole) (refs : List Ref) :
    (ofList refs).map (within whole) =
      refs.mapIdx fun index ref => ⟨ref, fun value => whole (refs.set index value)⟩ := by
  rw [ofList_eq, map_within_mapIdx]

end Slot

namespace Shape

theorem initSlots_eq (init : Option (LoopInit Ref)) :
    initSlots init = (initChildren init).mapIdx fun index ref =>
      ⟨ref, fun value => init.map
        (LoopInit.mapIdx fun position ref => if position = index then value else ref)⟩ := by
  cases init with
  | none => rfl
  | some init =>
      cases init with
      | declarations entries =>
          simp [initSlots, LoopInit.slots, Slot.map_within_ofList, Slot.map_within_mapIdx,
            initChildren, LoopInit.children, LoopInit.mapIdx, mapIdx_ite_eq_set]
      | expression value => rfl

theorem setChild_eq (shape : Shape Ref) (slot : Nat) : shape.setChild slot = fun child =>
    shape.mapIdx fun position ref => if position = slot then child else ref :=
  rfl

/-- Nothing is written into the start of a loop at positions behind it. -/
theorem map_init_of_le {init : Option (LoopInit Ref)} {index : Nat}
    (hindex : (initChildren init).length ≤ index) (value : Ref) :
    init.map (LoopInit.mapIdx fun position ref => if position = index then value else ref) =
      init := by
  cases init with
  | none => rfl
  | some init =>
      cases init with
      | declarations entries =>
          have hlength : entries.length ≤ index := hindex
          simp [LoopInit.mapIdx, mapIdx_ite_eq_set, List.set_eq_of_length_le hlength]
      | expression start =>
          have hlength : 1 ≤ index := hindex
          simp [LoopInit.mapIdx, show ¬ 0 = index by omega]

section

variable (varToken : Option Token) (init : Option (LoopInit Ref)) (test step : Option Ref)
  (body : Ref)

/-- What is written into the start of a loop stays there. -/
theorem setChild_init {index : Nat} (hindex : index < (initChildren init).length) (value : Ref) :
    (Shape.forLoop varToken init test step body).setChild index value =
      .forLoop varToken (init.map
        (LoopInit.mapIdx fun position ref => if position = index then value else ref))
        test step body := by
  have htest : ¬ (initChildren init).length = index := by omega
  have hstep : ¬ (initChildren init).length + test.toList.length = index := by omega
  have hbody : ¬ (initChildren init).length + test.toList.length + step.toList.length =
      index := by omega
  simp only [setChild, mapIdx, htest, hstep, hbody, if_false, Option.map_id']

theorem slots_forLoop :
    (Shape.forLoop varToken init test step body).slots =
      (Shape.forLoop varToken init test step body).children.mapIdx fun index ref =>
        ⟨ref, (Shape.forLoop varToken init test step body).setChild index⟩ := by
  have hstart : ((initChildren init).mapIdx fun index ref => (⟨ref, fun value =>
        Shape.forLoop varToken (init.map
          (LoopInit.mapIdx fun position ref => if position = index then value else ref))
          test step body⟩ : Slot Ref (Shape Ref))) =
      (initChildren init).mapIdx fun index ref =>
        ⟨ref, (Shape.forLoop varToken init test step body).setChild index⟩ := by
    rw [List.mapIdx_eq_mapIdx_iff]
    intro index hindex
    congr 1
    funext value
    exact (setChild_init varToken init test step body hindex value).symm
  rw [slots, children, initSlots_eq, Slot.map_within_mapIdx, hstart]
  simp only [List.mapIdx_append, List.append_assoc]
  congr 1
  cases test <;> cases step <;>
    simp [Slot.ofOption, Slot.within, setChild_eq, mapIdx, map_init_of_le,
      Nat.add_comm _ (initChildren init).length, Nat.add_assoc]

end

/-- The slots hold the children, and each writes at the position it has among them. -/
theorem slots_eq (shape : Shape Ref) :
    shape.slots = shape.children.mapIdx fun index ref => ⟨ref, shape.setChild index⟩ := by
  cases shape with
  | forLoop varToken init test step body => exact slots_forLoop varToken init test step body
  | tryCatch body handler finalizer => cases handler <;> cases finalizer <;> rfl
  | ifElse condition thenBranch elseBranch => cases elseBranch <;> rfl
  | returns value => cases value <;> rfl
  | expression value => cases value <;> rfl
  | newObject callee arguments => cases arguments <;> rfl
  | declaration name initializer => cases initializer <;> rfl
  | root | block | varStatement | switch | exprList | application | array | object =>
      simp [slots, children, setChild_eq, mapIdx, Slot.map_within_ofList, mapIdx_ite_eq_set,
        List.mapIdx_cons, mapIdx_eq_map]
  | _ => rfl

theorem map_current_slots (shape : Shape Ref) : shape.slots.map Slot.current = shape.children := by
  rw [slots_eq]
  apply List.ext_getElem?
  intro index
  simp [Function.comp_def]

/-- The kind of a shape can be told from its form. -/
theorem kind_frame (shape : Shape Ref) : shape.frame.kind = shape.kind := by
  cases shape with
  | leaf kind token => rfl
  | jump kind label => cases kind <;> rfl
  | function role name parameters body => cases role <;> rfl
  | unary side operator operand => cases side <;> rfl
  | _ => rfl

/-- The slots of a shape hold its children in their order.  A reference written into one of them
replaces the child at its position, and no other, as a splice does it; the kind stays, as do the
tokens, the lengths of the lists, the form of a loop's start and which optional parts there
are. -/
theorem slots_hold_children (shape : Shape Ref) :
    shape.slots.map Slot.current = shape.children ∧
      ∀ index, index < shape.children.length → ∃ slot, shape.slots[index]? = some slot ∧
        ∀ value, slot.write value = shape.setChild index value ∧
          (slot.write value).children = shape.children.set index value ∧
          (slot.write value).kind = shape.kind ∧ (slot.write value).frame = shape.frame := by
  refine ⟨map_current_slots shape, ?_⟩
  intro index hindex
  refine ⟨⟨shape.children[index], shape.setChild index⟩, ?_, ?_⟩
  · rw [slots_eq, List.getElem?_mapIdx, List.getElem?_eq_getElem hindex, Option.map_some]
  · intro value
    refine ⟨rfl, children_setChild shape index value, ?_, frame_setChild shape index value⟩
    rw [← kind_frame, frame_setChild, kind_frame]

/-- A loop that declares two variables and has no test: its third slot is the step. -/
theorem slots_hold_children_loop :
    ∃ slot, (Shape.forLoop none (some (.declarations [4, 5])) none (some 6) 7).slots[2]? =
        some slot ∧ slot.current = 6 ∧ (slot.write 9).children = [4, 5, 9, 7] ∧
      slot.write 9 = .forLoop none (some (.declarations [4, 5])) none (some 9) 7 := by
  obtain ⟨slot, hslot, hwrite⟩ := (slots_hold_children
    (.forLoop none (some (.declarations [4, 5])) none (some 6) 7)).2 2 (by decide)
  obtain ⟨heq, hchildren, -, -⟩ := hwrite 9
  refine ⟨slot, hslot, ?_, hchildren, heq⟩
  cases hslot
  rfl

end Shape

end ScriptSyntax
