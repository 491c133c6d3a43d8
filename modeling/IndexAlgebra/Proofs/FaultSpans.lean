/-
This file proves where the errors of the builders point. An error that carries a text marks regions of
it, and in each region stands the printed form of one operand, in the order of the operands. A label
describes the operand of its region, with one exception: a logical node of which only the second
operand is no truth value marks both operands, so that its only label lies on the first one, which is
a truth value.
-/
import IndexAlgebra.Proofs.Load

namespace IndexAlgebra

/-! ### Regions of a text -/

namespace Fault

/-- The region begins and ends between two characters of the source, and the text stands there. -/
def Shows (fault : Fault) (span : Nat × Nat) (text : String) : Prop :=
  ∃ (first : (⟨span.1⟩ : String.Pos.Raw).IsValid fault.source)
    (last : (⟨span.2⟩ : String.Pos.Raw).IsValid fault.source),
    fault.source.extract ⟨_, first⟩ ⟨_, last⟩ = text

/-- A text stands between what is put in front of it and what is put behind it. -/
theorem shows_between {fault : Fault} {start : Nat} (before text after : String)
    (source : fault.source = before ++ text ++ after) (starts : start = before.utf8ByteSize) :
    fault.Shows (start, start + text.utf8ByteSize) text := by
  obtain ⟨cause, source', spans⟩ := fault
  subst source starts
  have first : (⟨before.utf8ByteSize⟩ : String.Pos.Raw).IsValid (before ++ text ++ after) :=
    String.Pos.Raw.isValid_iff_exists_append.mpr
      ⟨before, text ++ after, String.append_assoc .., rfl⟩
  have last : (⟨before.utf8ByteSize + text.utf8ByteSize⟩ : String.Pos.Raw).IsValid
      (before ++ text ++ after) :=
    String.Pos.Raw.isValid_iff_exists_append.mpr
      ⟨before ++ text, after, rfl, String.Pos.Raw.ext (String.utf8ByteSize_append ..).symm⟩
  refine ⟨first, last, String.toByteArray_inj.mp ?_⟩
  have shifted : (before.toByteArray ++ (text.toByteArray ++ after.toByteArray)).extract
      (before.toByteArray.size + 0) (before.toByteArray.size + text.toByteArray.size) =
        text.toByteArray :=
    ByteArray.extract_append_size_add.trans (ByteArray.extract_append_eq_left rfl)
  simpa only [String.toByteArray_extract, String.toByteArray_append, ByteArray.append_assoc,
    String.size_toByteArray, Nat.add_zero] using shifted

/-- The regions of the error show the operands in their order. -/
def PointsAt (fault : Fault) (operands : List Expr) : Prop :=
  List.Forall₂ (fun span operand => fault.Shows span operand.text) fault.spans operands

end Fault

/-! ### What a label says -/

/-- The label describes the operand: its type, its count of lanes, or that it is the operand at fault,
whose type the cause states and which is no truth value. -/
def Cause.Describes (cause : Cause) (label : String) (operand : Expr) : Prop :=
  match cause with
  | mismatchedTypes .. => label = "this is of type `" ++ operand.dtype.text ++ "`"
  | mismatchedLanes .. => label = "this has " ++ toString operand.lanes ++ " lane(s)"
  | nonBoolean _ found =>
    label = "this operand" ∧ found = operand.dtype ∧ operand.dtype.isBool = false
  | _ => False

/-- Each label describes the operand that its region shows. -/
def Cause.LabelsDescribe (cause : Cause) (operands : List Expr) : Prop :=
  ∀ (index : Nat) (label : String), cause.labels[index]? = some label →
    ∃ operand, operands[index]? = some operand ∧ cause.Describes label operand

namespace Cause

variable {node : String} {lhs rhs operand : Expr} {rest : List Expr}

theorem labelsDescribe_mismatchedTypes :
    (mismatchedTypes node lhs.dtype rhs.dtype).LabelsDescribe [lhs, rhs] := by
  intro index label isLabel
  match index with
  | 0 => exact ⟨lhs, rfl, (Option.some.inj isLabel).symm⟩
  | 1 => exact ⟨rhs, rfl, (Option.some.inj isLabel).symm⟩
  | _ + 2 => cases isLabel

theorem labelsDescribe_mismatchedLanes :
    (mismatchedLanes node lhs.lanes rhs.lanes).LabelsDescribe [lhs, rhs] := by
  intro index label isLabel
  match index with
  | 0 => exact ⟨lhs, rfl, (Option.some.inj isLabel).symm⟩
  | 1 => exact ⟨rhs, rfl, (Option.some.inj isLabel).symm⟩
  | _ + 2 => cases isLabel

/-- The label about an operand that is no truth value lies on the first region. -/
theorem labelsDescribe_nonBoolean {found : DataType} (notBool : found.isBool = false) :
    (nonBoolean node found).LabelsDescribe (operand :: rest) ↔ found = operand.dtype := by
  constructor
  · intro describe
    obtain ⟨shown, isShown, -, same, -⟩ := describe 0 _ rfl
    cases isShown
    exact same
  · intro same index label isLabel
    match index with
    | 0 => exact ⟨operand, rfl, (Option.some.inj isLabel).symm, same, same ▸ notBool⟩
    | _ + 1 => cases isLabel

end Cause

namespace Expr

variable {form : Form} {op : BinaryOp} {lhs rhs operand cond onTrue onFalse base stride built : Expr}
  {cause : Cause} {fault : Fault} {count : Nat}

/-! ### Errors about two operands -/

/-- The regions of the printed node show both operands. -/
theorem pointsAt_fault (form : Form) (lhs rhs : Expr) (cause : Cause) :
    (form.fault lhs rhs cause).PointsAt [lhs, rhs] := by
  cases form with
  | between symbol =>
    have left : ((Form.between symbol).fault lhs rhs cause).source =
        "" ++ lhs.text ++ (" " ++ symbol ++ " " ++ rhs.text) := by
      simp [Form.fault, Form.render, String.append_assoc]
    have right : ((Form.between symbol).fault lhs rhs cause).source =
        lhs.text ++ " " ++ symbol ++ " " ++ rhs.text ++ "" := by
      simp [Form.fault, Form.render]
    have start : lhs.text.utf8ByteSize + symbol.utf8ByteSize + 2 =
        (lhs.text ++ " " ++ symbol ++ " ").utf8ByteSize := by
      have blank : " ".utf8ByteSize = 1 := rfl
      simp only [String.utf8ByteSize_append, blank]
      omega
    exact .cons (Fault.shows_between _ _ _ left rfl)
      (.cons (Fault.shows_between _ _ _ right start) .nil)
  | called name =>
    have left : ((Form.called name).fault lhs rhs cause).source =
        name ++ "(" ++ lhs.text ++ (", " ++ rhs.text ++ ")") := by
      simp [Form.fault, Form.render, String.append_assoc]
    have right : ((Form.called name).fault lhs rhs cause).source =
        name ++ "(" ++ lhs.text ++ ", " ++ rhs.text ++ ")" := by
      simp [Form.fault, Form.render]
    have leftStart : name.utf8ByteSize + 1 = (name ++ "(").utf8ByteSize := by
      rw [String.utf8ByteSize_append]
      rfl
    have rightStart : name.utf8ByteSize + lhs.text.utf8ByteSize + 3 =
        (name ++ "(" ++ lhs.text ++ ", ").utf8ByteSize := by
      have opening : "(".utf8ByteSize = 1 := rfl
      have separator : ", ".utf8ByteSize = 2 := rfl
      simp only [String.utf8ByteSize_append, opening, separator]
      omega
    exact .cons (Fault.shows_between _ _ _ left leftStart)
      (.cons (Fault.shows_between _ _ _ right rightStart) .nil)

/-- The region of an operand that is printed alone is its whole text. -/
theorem pointsAt_operandFault (operand : Expr) (cause : Cause) :
    (operandFault operand cause).PointsAt [operand] := by
  have source : (operandFault operand cause).source = "" ++ operand.text ++ "" := by
    simp [operandFault]
  refine .cons ?_ .nil
  have shows := Fault.shows_between _ _ _ source rfl
  simpa using shows

/-! ### What the builders refuse -/

/-- The operands of a logical node are refused for the first that is no truth value. -/
theorem checkLogical_eq_error (refused : form.checkLogical lhs rhs = .error fault) :
    ∃ offending, fault = form.fault lhs rhs (.nonBoolean form.name offending.dtype) ∧
      offending.dtype.isBool = false ∧
      (offending = lhs ∨ lhs.dtype.isBool = true ∧ offending = rhs) := by
  unfold Form.checkLogical at refused
  split at refused
  next notBool =>
    cases refused
    exact ⟨lhs, rfl, by simpa using notBool, .inl rfl⟩
  next isBool =>
    split at refused
    next notBool =>
      cases refused
      exact ⟨rhs, rfl, by simpa using notBool, .inr ⟨by simpa using isBool, rfl⟩⟩
    next => cases refused

/-- Operands of different types are refused with an error whose labels describe them. -/
theorem checkTypes_eq_error (refused : form.checkTypes lhs rhs = .error fault) :
    ∃ cause, fault = form.fault lhs rhs cause ∧ cause.LabelsDescribe [lhs, rhs] := by
  unfold Form.checkTypes at refused
  split at refused
  next => cases refused
  next =>
    split at refused
    next =>
      cases refused
      exact ⟨_, rfl, Cause.labelsDescribe_mismatchedLanes⟩
    next =>
      cases refused
      exact ⟨_, rfl, Cause.labelsDescribe_mismatchedTypes⟩

/-- What the builders are asked for: a node and its operands. -/
inductive Request where
  | binary (op : BinaryOp) (lhs rhs : Expr)
  | not (value : Expr)
  | select (cond onTrue onFalse : Expr)
  | ramp (base stride : Expr) (lanes : Nat)

namespace Request

/-- The node, or why it cannot be built. -/
def build : Request → Except Fault Expr
  | binary op lhs rhs => mkBinary op lhs rhs
  | not value => mkNot value
  | select cond onTrue onFalse => mkSelect cond onTrue onFalse
  | ramp base stride lanes => mkRamp base stride lanes

/-- The operands that were asked for. -/
def given : Request → List Expr
  | binary _ lhs rhs => [lhs, rhs]
  | not value => [value]
  | select cond onTrue onFalse => [cond, onTrue, onFalse]
  | ramp base stride _ => [base, stride]

/-- The operands that an error with a text shows: those whose types have to be the same, after a
constant among them has taken the type of the other, or the one that has to be a truth value. -/
def shown : Request → List Expr
  | binary _ lhs rhs => [(unify lhs rhs).1, (unify lhs rhs).2]
  | not value => [value]
  | select cond onTrue onFalse =>
    if cond.dtype.isBool then [(unify onTrue onFalse).1, (unify onTrue onFalse).2] else [cond]
  | ramp base stride _ => [(unify base stride).1, (unify base stride).2]

/-- Only the second operand of a logical node is no truth value. -/
def BlamesSecond : Request → Prop
  | binary op lhs rhs =>
    op.isLogical = true ∧ (unify lhs rhs).1.dtype.isBool = true ∧
      (unify lhs rhs).2.dtype.isBool = false
  | _ => False

end Request

theorem isBool_of_checkLogical (checked : form.checkLogical lhs rhs = .ok ()) :
    lhs.dtype.isBool = true ∧ rhs.dtype.isBool = true := by
  unfold Form.checkLogical at checked
  split at checked
  next => cases checked
  next left =>
    split at checked
    next => cases checked
    next right => exact ⟨by simpa using left, by simpa using right⟩

/-- The error points at the operands, and its labels describe them unless it is misleading. -/
def Marks (fault : Fault) (operands : List Expr) (misleading : Prop) : Prop :=
  fault.PointsAt operands ∧ (fault.cause.LabelsDescribe operands ↔ ¬ misleading)

theorem marks_of_checkTypes {misleading : Prop} (refused : form.checkTypes lhs rhs = .error fault)
    (right : ¬ misleading) : Marks fault [lhs, rhs] misleading := by
  obtain ⟨cause, rfl, describe⟩ := checkTypes_eq_error refused
  exact ⟨pointsAt_fault form lhs rhs cause, iff_of_true describe right⟩

theorem marks_of_checkLogical (refused : form.checkLogical lhs rhs = .error fault) :
    Marks fault [lhs, rhs] (lhs.dtype.isBool = true ∧ rhs.dtype.isBool = false) := by
  obtain ⟨offending, rfl, notBool, isFirst | ⟨isBool, isSecond⟩⟩ := checkLogical_eq_error refused
  · subst isFirst
    refine ⟨pointsAt_fault .., iff_of_true ((Cause.labelsDescribe_nonBoolean notBool).mpr rfl) ?_⟩
    rintro ⟨isBool, -⟩
    exact absurd (isBool.symm.trans notBool) (by decide)
  · subst isSecond
    refine ⟨pointsAt_fault .., iff_of_false (fun describe => ?_) (not_not.mpr ⟨isBool, notBool⟩)⟩
    have same := (Cause.labelsDescribe_nonBoolean notBool).mp describe
    exact absurd (isBool.symm.trans (same ▸ notBool)) (by decide)

theorem marks_of_operandFault {node : String} (notBool : operand.dtype.isBool = false) :
    Marks (operandFault operand (.nonBoolean node operand.dtype)) [operand] False :=
  ⟨pointsAt_operandFault .., iff_of_true ((Cause.labelsDescribe_nonBoolean notBool).mpr rfl) id⟩

/-- A binary node is refused for its operands as they are after one took the type of the other. -/
theorem marks_of_mkBinary (refused : mkBinary op lhs rhs = .error fault) :
    Marks fault (Request.binary op lhs rhs).shown (Request.binary op lhs rhs).BlamesSecond := by
  unfold mkBinary at refused
  simp only [Request.shown, Request.BlamesSecond]
  generalize unify lhs rhs = operands at refused ⊢
  obtain ⟨left, right⟩ := operands
  dsimp only at refused ⊢
  cases logical : op.isLogical with
  | false =>
    rw [if_neg (by simp [logical])] at refused
    cases checked : (Form.ofOp op).checkTypes left right with
    | error found =>
      rw [checked] at refused
      cases refused
      exact marks_of_checkTypes checked (by simp)
    | ok _ =>
      rw [checked] at refused
      cases refused
  | true =>
    rw [if_pos logical] at refused
    cases truths : (Form.ofOp op).checkLogical left right with
    | error found =>
      rw [truths] at refused
      cases refused
      simpa using marks_of_checkLogical truths
    | ok _ =>
      cases checked : (Form.ofOp op).checkTypes left right with
      | error found =>
        rw [truths, checked] at refused
        cases refused
        exact marks_of_checkTypes checked (by simp [isBool_of_checkLogical truths])
      | ok _ =>
        rw [truths, checked] at refused
        cases refused

theorem marks_of_mkNot (refused : mkNot operand = .error fault) :
    Marks fault (Request.not operand).shown (Request.not operand).BlamesSecond := by
  unfold mkNot at refused
  split at refused
  next => cases refused
  next notBool =>
    cases refused
    exact marks_of_operandFault (by simpa using notBool)

/-- A choice is refused for its condition, for its branches, or without a text for its lanes. -/
theorem marks_of_mkSelect (refused : mkSelect cond onTrue onFalse = .error fault) :
    fault.source = "" ∧ fault.spans = [] ∨
      Marks fault (Request.select cond onTrue onFalse).shown
        (Request.select cond onTrue onFalse).BlamesSecond := by
  unfold mkSelect at refused
  simp only [Request.shown, Request.BlamesSecond]
  generalize unify onTrue onFalse = operands at refused ⊢
  obtain ⟨left, right⟩ := operands
  dsimp only at refused ⊢
  cases isBool : cond.dtype.isBool with
  | false =>
    rw [if_pos (by simp [isBool])] at refused
    cases refused
    exact .inr (marks_of_operandFault isBool)
  | true =>
    rw [if_neg (by simp [isBool])] at refused
    cases checked : (Form.called "select").checkTypes left right with
    | error found =>
      rw [checked] at refused
      cases refused
      exact .inr (marks_of_checkTypes checked id)
    | ok _ =>
      rw [checked] at refused
      simp only [pure, Except.pure, bind, Except.bind] at refused
      split at refused
      next =>
        cases refused
        exact .inl ⟨rfl, rfl⟩
      next => cases refused

/-- A ramp is refused for the types of its base and stride, or without a text for its lanes. -/
theorem marks_of_mkRamp (refused : mkRamp base stride count = .error fault) :
    fault.source = "" ∧ fault.spans = [] ∨
      Marks fault (Request.ramp base stride count).shown
        (Request.ramp base stride count).BlamesSecond := by
  unfold mkRamp at refused
  simp only [Request.shown, Request.BlamesSecond]
  generalize unify base stride = operands at refused ⊢
  obtain ⟨left, right⟩ := operands
  dsimp only at refused ⊢
  cases checked : (Form.called "ramp").checkTypes left right with
  | error found =>
    rw [checked] at refused
    cases refused
    exact .inr (marks_of_checkTypes checked id)
  | ok _ =>
    rw [checked] at refused
    simp only [pure, Except.pure, bind, Except.bind] at refused
    split at refused
    next =>
      cases refused
      exact .inl ⟨rfl, rfl⟩
    next => cases refused

/-- An operand of a pair with one type was given, or it is a constant that was given and then took
another type. -/
theorem exists_given_of_unify (shown : operand ∈ [(unify lhs rhs).1, (unify lhs rhs).2]) :
    operand ∈ [lhs, rhs] ∨ ∃ constant ∈ [lhs, rhs], ∃ dtype, constant.retype? dtype = some operand := by
  rcases unify_cases lhs rhs with unified | ⟨retyped, retypes, unified⟩ | ⟨retyped, retypes, unified⟩ <;>
    rw [unified] at shown
  · exact .inl shown
  · rcases List.mem_pair.mp shown with rfl | rfl
    · exact .inl (by simp)
    · exact .inr ⟨rhs, by simp, lhs.dtype, retypes⟩
  · rcases List.mem_pair.mp shown with rfl | rfl
    · exact .inr ⟨lhs, by simp, rhs.dtype, retypes⟩
    · exact .inl (by simp)

/-- Each operand that an error shows was given, or it is a constant that was given and then took
another type. -/
theorem Request.exists_given_of_shown {request : Request} (isShown : operand ∈ request.shown) :
    operand ∈ request.given ∨
      ∃ constant ∈ request.given, ∃ dtype, constant.retype? dtype = some operand := by
  cases request with
  | binary op lhs rhs => exact exists_given_of_unify isShown
  | not value => exact .inl isShown
  | select cond onTrue onFalse =>
    simp only [shown] at isShown
    split at isShown
    next =>
      rcases exists_given_of_unify isShown with given | ⟨constant, given, retypes⟩
      · exact .inl (List.mem_cons_of_mem _ given)
      · exact .inr ⟨constant, List.mem_cons_of_mem _ given, retypes⟩
    next => exact .inl (List.mem_singleton.mp isShown ▸ List.mem_cons_self)
  | ramp base stride lanes => exact exists_given_of_unify isShown

/-! ### Where errors point -/

/-- An error of a builder has no text, or it points at the operands of the node, each as it was given
or as a constant that took another type: every region begins and ends between two characters of the
text, and the printed form of its operand stands there. The labels describe the operands of their
regions if and only if it is not the second operand alone that fails to be a truth value. -/
theorem Request.fault_pointsAt {request : Request} (refused : request.build = .error fault) :
    (∀ operand ∈ request.shown, operand ∈ request.given ∨
      ∃ constant ∈ request.given, ∃ dtype, constant.retype? dtype = some operand) ∧
    (fault.source = "" ∧ fault.spans = [] ∨
      fault.PointsAt request.shown ∧
        (fault.cause.LabelsDescribe request.shown ↔ ¬ request.BlamesSecond)) := by
  refine ⟨fun _ => exists_given_of_shown, ?_⟩
  cases request with
  | binary op lhs rhs => exact .inr (marks_of_mkBinary refused)
  | not value => exact .inr (marks_of_mkNot refused)
  | select cond onTrue onFalse => exact marks_of_mkSelect refused
  | ramp base stride lanes => exact marks_of_mkRamp refused

/-- The smaller of two vectors of different lane counts is refused: both are shown, behind the name of
the node, with their lanes. -/
theorem Request.fault_pointsAt_lanes :
    let first := (Variable.mk "v" (.withLanes .int32 4) false).expr
    let second := (Variable.mk "w" (.withLanes .int32 8) false).expr
    let fault : Fault := ⟨.mismatchedLanes "min" 4 8, "min(v, w)", [(4, 5), (7, 8)]⟩
    (binary .min first second).build = .error fault ∧ fault.PointsAt [first, second] ∧
      fault.cause.LabelsDescribe [first, second] := by
  intro first second fault
  have refused : (binary .min first second).build = .error fault := by rfl
  obtain ⟨-, ⟨noText, -⟩ | ⟨pointsAt, describe⟩⟩ := fault_pointsAt refused
  · exact absurd noText (by decide)
  · exact ⟨refused, pointsAt, describe.mpr fun blames => absurd blames.1 (by decide)⟩

/-- The conjunction of `true` and an integer variable is refused for the variable, and its only label
lies on `true`, which does not have the type that was found. -/
theorem Request.not_labelsDescribe :
    let truth := boolConst .bool true
    let number := (Variable.mk "x" .int32 false).expr
    let fault : Fault := ⟨.nonBoolean "&&" .int32, "true && x", [(0, 4), (8, 9)]⟩
    (binary .and truth number).build = .error fault ∧ fault.PointsAt [truth, number] ∧
      fault.cause.labels = ["this operand"] ∧ ¬ fault.cause.Describes "this operand" truth := by
  intro truth number fault
  have refused : mkBinary .and truth number = .error fault := by rfl
  refine ⟨refused, (marks_of_mkBinary refused).1, rfl, fun describes => ?_⟩
  exact absurd describes.2.1 (by decide)

end Expr

end IndexAlgebra
