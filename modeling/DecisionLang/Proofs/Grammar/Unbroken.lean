import DecisionLang.Proofs.Grammar.Applies
import DecisionLang.Proofs.Grammar.Reread.Calls
import DecisionLang.Proofs.Layout.Expression

/-!
# No breach while reading

What a rule produces can be read from tokens and slices at fixed distances from both ends of a run,
or around a sign. Reading by positions is reading by shapes: no position is outside the tokens, no
value is missing, and only shorter runs of tokens are read on the way, whatever rules and tiers a
grammar has. Main statement: `Grammar.produce_unbroken`.
-/

namespace DecisionLang

open Guarded

namespace Rule

/-! ### What a rule produces -/

section Producing

variable (line : Line) (tokens : List Token) (recur : List Token → Guarded Expr)

def produceBranch (kind : Branch) : Guarded Expr := do
  if tokens.length < 2 then fail line (← item tokens 0) (Shape.missingSubject kind)
  else
    let subject ← recur (← sliceFrom tokens 1)
    return Shape.branchOf kind (← mark line (← item tokens 0)) subject

def produceFallback (kind : Fallback) : Guarded Expr :=
  match tokens[1]? with
  | some extra => fail line extra (.tokensAfter kind.keyword)
  | none => return Shape.fallbackOf kind (← mark line (← item tokens 0))

def produceSpreadAssignment : Guarded Expr := do
  if tokens.length < 3 then fail line (← item tokens 1) .missingSpreadCall
  else
    let invoked ← recur (← sliceFrom tokens 2)
    match invoked with
    | .call .. => return .spreadAssign (← mark line (← item tokens 0)) invoked
    | _ => fail line (← item tokens 2) .missingSpreadCall

def produceDefault : Guarded (Option Expr) := do
  if tokens.length < 3 then return none
  else
    match tokens.drop 3 with
    | [] => fail line (← item tokens 2) .missingDeclaredValue
    | value => return some (← recur value)

def produceDeclaration : Guarded Expr := do
  let type ← given (WrittenType.ofToken? (← item tokens 0))
  let name ← given (← item tokens 1).name?
  let default ← produceDefault line tokens recur
  return .declare (← mark line (← item tokens 0)) type name default

def produceTarget (token : Token) : Guarded Target :=
  match token.path? with
  | some parts => return .path (NamePath.ofParts parts)
  | none => return .name (← given token.name?)

def produceAssignment : Guarded Expr := do
  let target ← produceTarget (← item tokens 0)
  if tokens.length < 3 then fail line (← item tokens 1) .missingAssignedValue
  else
    let target := Shape.targetOf target (← mark line (← item tokens 0))
    let value ← recur (← sliceFrom tokens 2)
    return .assign (← mark line (← item tokens 0)) target value

def produceBinary (tiers : Tiers) : Guarded Expr := do
  let candidates ← given (Token.outerOperators? tokens)
  match tiers.splitPoint? candidates with
  | none => fail line (← item tokens 0) (.invalidExpression (Token.describe tokens))
  | some (position, operator) =>
    let left ← slice tokens 0 position
    let right ← sliceFrom tokens (position + 1)
    if left.isEmpty then fail line (← item tokens position) (.missingOperand .left operator)
    else if right.isEmpty then
      fail line (← item tokens position) (.missingOperand .right operator)
    else
      let left ← recur left
      let right ← recur right
      return .binary (← mark line (← item tokens 0)) left operator right

def produceGroup : Guarded Expr := do
  let inner ← slice tokens 1 (← last tokens)
  if inner.isEmpty then fail line (← item tokens 0) .emptyGroup
  else
    let inner ← recur inner
    return .group (← mark line (← item tokens 0)) inner

def produceIndexed : Guarded Expr := do
  let index ← slice tokens 2 (← last tokens)
  if index.isEmpty then fail line (← item tokens 1) .emptyIndex
  else
    let index ← recur index
    let table ← given (← item tokens 0).name?
    return .indexed (← mark line (← item tokens 0)) table index

/-! #### Calls -/

def produceArgument (argument : List Token) : Guarded Expr := do
  if argument.isEmpty then fail line (← item tokens 0) (.emptyArgument (Token.describe tokens))
  else recur argument

def refuseArguments {α : Type} (spelling usage : String) : Guarded α := do
  fail line (← item tokens 0) (Shape.argumentsFault spelling usage)

/-- A type that is named by a token. -/
def typeNamed? (token : Token) : Option NamePath :=
  match token.path? with
  | some parts => some (NamePath.ofParts parts)
  | none => token.name?.map NamePath.ofName

def produceMake (making : Making) (arguments : List (List Token)) : Guarded Expr :=
  let refuse := refuseArguments line tokens making.function.spelling making.function.usage
  match arguments with
  | [[token]] =>
    match typeNamed? token with
    | some type => do
      let reference := line.tokenReference (← item [token] 0)
      return .make (← mark line (← item tokens 0)) making type reference
    | none => refuse
  | _ => refuse

def produceExtract (arguments : List (List Token)) : Guarded Expr :=
  match arguments with
  | [argument] => do
    let object ← produceArgument line tokens recur argument
    return .extract (← mark line (← item tokens 0)) object
  | _ =>
    refuseArguments line tokens ObjectFunction.extract.spelling ObjectFunction.extract.usage

/-- After the table, the arguments of a table function are taken one after another. -/
def produceLookUp (function : TableFunction) (arguments : List (List Token)) : Guarded Expr := do
  let refuse {α : Type} : Guarded α := refuseArguments line tokens function.spelling function.usage
  if arguments.length ≠ function.arity then refuse
  else
    let (table, reference) ← match ← item arguments 0 with
      | [token] => token.name?.elim refuse fun table => pure (table, line.tokenReference token)
      | _ => refuse
    let value := produceArgument line tokens recur
    let column := fun argument => ofNumbered (Shape.columnName line function.usage argument)
    let rest ← sliceFrom arguments 1
    let (discriminator, rest) ← nextIf function.hasDiscriminator value rest
    let (searched, rest) ← next value rest
    let (discriminatorColumn, rest) ← nextIf function.hasDiscriminator column rest
    let (searchColumn, rest) ← next column rest
    let (resultColumn, _) ← nextIf (!function.returnsRow) column rest
    return .lookUp (← mark line (← item tokens 0)) function table reference discriminator searched
      discriminatorColumn searchColumn resultColumn

/-- A call by the family its function belongs to. -/
def produceFunction (function : String) (arguments : List (List Token)) : Guarded Expr :=
  match ObjectFunction.ofSpelling? function with
  | some .new => produceMake line tokens .new arguments
  | some .fill => produceMake line tokens .fill arguments
  | some .extract => produceExtract line tokens recur arguments
  | none =>
    match TableFunction.ofSpelling? function with
    | some tableFunction => produceLookUp line tokens recur tableFunction arguments
    | none => do
      let values ← arguments.mapM (produceArgument line tokens recur)
      return .call (← mark line (← item tokens 0)) function values

def produceCall : Guarded Expr := do
  let function ← given (← item tokens 0).name?
  let arguments ← Token.argumentsByPosition (← slice tokens 2 (← last tokens))
  produceFunction line tokens recur function arguments

/-- An expression of a single token, from what is found in the token. -/
def produceSingle {α : Type} (find : Token → Option α) (build : Mark → α → Expr) :
    Guarded Expr := do
  let found ← given (find (← item tokens 0))
  return build (← mark line (← item tokens 0)) found

/-- What a rule that applies reads from the tokens. -/
def produce (tiers : Tiers) : Rule → Guarded Expr
  | ifBranch => produceBranch line tokens recur .ifThen
  | elseIfBranch => produceBranch line tokens recur .elseIf
  | elseBranch => produceFallback line tokens .otherwise
  | switch => produceBranch line tokens recur .switch
  | case => produceBranch line tokens recur .case
  | default => produceFallback line tokens .default
  | spreadAssignment => produceSpreadAssignment line tokens recur
  | declaration => produceDeclaration line tokens recur
  | assignment => produceAssignment line tokens recur
  | binary => produceBinary line tokens recur tiers
  | group => produceGroup line tokens recur
  | indexed => produceIndexed line tokens recur
  | call => produceCall line tokens recur
  | spread => do return .spread (← mark line (← item tokens 0))
  | path => produceSingle line tokens Token.path? fun mark parts => .path mark (NamePath.ofParts parts)
  | literal => produceSingle line tokens Literal.ofToken? .literal
  | name => produceSingle line tokens Token.name? .name

end Producing

/-! ### What is read from a shape -/

variable {tiers : Tiers} {tokens : List Token} {shape : Shape}

section Produced

variable {line : Line} {recur : List Token → Guarded Expr} {read : List Token → Numbered Expr}

theorem produceFallback_eq {kind : Fallback} (h : fallbackShape? kind tokens = some shape) :
    produceFallback line tokens kind = ofNumbered (shape.read line fun part _ => read part) := by
  match tokens with
  | [] => cases h
  | first :: rest =>
    simp only [fallbackShape?, Option.ite_none_right_eq_some, Option.some.injEq] at h
    obtain ⟨_, rfl⟩ := h
    cases rest with
    | nil => simp [produceFallback, Shape.read]
    | cons extra rest => simp [produceFallback, Shape.read]

theorem produceTarget_eq {token : Token} {target : Target} (h : target? token = some target) :
    produceTarget token = pure target := by
  unfold target? at h
  unfold produceTarget
  cases hpath : token.path? with
  | some parts =>
    rw [hpath] at h
    cases h
    rfl
  | none =>
    simp only [hpath, Option.map_eq_some_iff] at h
    obtain ⟨word, hword, rfl⟩ := h
    simp [hword]

theorem produceSingle_eq {α : Type} {find : Token → Option α} {found : α} {first : Token}
    (build : Mark → α → Expr) (h : find first = some found) :
    produceSingle line [first] find build =
      ofNumbered do return build (← Numbered.mark line first) found := by
  simp [produceSingle, h]

/-! #### Calls -/

theorem produceArgument_eq (line : Line) (first : Token) (rest argument : List Token)
    (hargument : recur argument = ofNumbered (read argument)) :
    produceArgument line (first :: rest) recur argument =
      ofNumbered (Shape.readArgument line first (first :: rest) argument (read argument)) := by
  simp [produceArgument, Shape.readArgument, hargument]

theorem produceMake_eq (first : Token) (rest : List Token) (making : Making)
    (arguments : List (List Token)) :
    produceMake line (first :: rest) making arguments =
      ofNumbered (Shape.readMake line first making arguments) := by
  match arguments with
  | [] | [[]] | [_ :: _ :: _] | _ :: _ :: _ =>
    simp [produceMake, Shape.readMake, Shape.typePath?, refuseArguments]
  | [[token]] =>
    cases hpath : token.path? <;> cases hname : token.name? <;>
      simp [produceMake, Shape.readMake, Shape.typePath?, typeNamed?, refuseArguments, hpath, hname]

theorem produceExtract_eq (first : Token) (rest : List Token) {arguments : List (List Token)}
    (hrecur : ∀ part ∈ arguments, recur part = ofNumbered (read part)) :
    produceExtract line (first :: rest) recur arguments =
      ofNumbered (Shape.readExtract line first (first :: rest) arguments fun part _ => read part) := by
  match arguments with
  | [] | _ :: _ :: _ => simp [produceExtract, Shape.readExtract, refuseArguments]
  | [argument] =>
    have hargument := produceArgument_eq line first rest argument (hrecur argument (by simp))
    simp [produceExtract, Shape.readExtract, hargument]

theorem exists_roles_of_length {function : TableFunction} {arguments : List (List Token)}
    (h : arguments.length = function.arity) :
    ∃ (table value search : List Token) (pair : Option (List Token × List Token))
      (result : Option (List Token)),
      arguments = table :: ((pair.map Prod.fst).toList ++
        value :: ((pair.map Prod.snd).toList ++ search :: result.toList)) ∧
      pair.isSome = function.hasDiscriminator ∧ result.isNone = function.returnsRow := by
  cases function with
  | lookUp =>
    match arguments, h with
    | [table, value, search, result], _ => exact ⟨table, value, search, none, some result, rfl, rfl, rfl⟩
  | lookUpRow =>
    match arguments, h with
    | [table, value, search], _ => exact ⟨table, value, search, none, none, rfl, rfl, rfl⟩
  | lookUpBy =>
    match arguments, h with
    | [table, discriminator, value, column, search, result], _ =>
      exact ⟨table, value, search, some (discriminator, column), some result, rfl, rfl, rfl⟩
  | lookUpRowBy =>
    match arguments, h with
    | [table, discriminator, value, column, search], _ =>
      exact ⟨table, value, search, some (discriminator, column), none, rfl, rfl, rfl⟩

/-- Arguments of another number are refused. -/
theorem readLookUp_of_length_ne {function : TableFunction} {arguments : List (List Token)}
    (first : Token) (h : arguments.length ≠ function.arity) :
    Shape.readLookUp line first tokens function arguments (fun part _ => read part) =
      Numbered.fail line first (Shape.argumentsFault function.spelling function.usage) := by
  unfold Shape.readLookUp
  split <;> first | rfl | simp [TableFunction.arity, *] at h

theorem produceLookUp_eq (first : Token) (rest : List Token) (function : TableFunction)
    {arguments : List (List Token)}
    (hrecur : ∀ part ∈ arguments, recur part = ofNumbered (read part)) :
    produceLookUp line (first :: rest) recur function arguments =
      ofNumbered (Shape.readLookUp line first (first :: rest) function arguments
        fun part _ => read part) := by
  by_cases hlength : arguments.length = function.arity
  · obtain ⟨table, value, search, pair, result, rfl, hpair, hresult⟩ :=
      exists_roles_of_length hlength
    have hargument (part : List Token) (hpart : recur part = ofNumbered (read part)) :=
      produceArgument_eq line first rest part hpart
    rw [Grammar.readLookUp_of_roles rfl hpair hresult, Shape.LookUp.read, produceLookUp,
      if_neg (not_not_intro hlength)]
    rcases table with _ | ⟨token, _ | ⟨second, others⟩⟩
    · simp [refuseArguments]
    · cases hname : token.name? with
      | none => simp [hname, refuseArguments]
      | some table =>
        have hvalue := hargument value (hrecur value (by simp))
        cases pair with
        | none =>
          rw [← hpair, ← hresult]
          cases result <;> simp [hname, nextIf, next, hvalue]
        | some roles =>
          have hroles := hargument roles.1 (hrecur roles.1 (by simp))
          rw [← hpair, ← hresult]
          cases result <;> simp [hname, nextIf, next, hvalue, hroles]
    · simp [refuseArguments]
  · rw [readLookUp_of_length_ne first hlength, produceLookUp]
    simp [hlength, refuseArguments]

theorem produceFunction_eq (first : Token) (rest : List Token) (function : String)
    {arguments : List (List Token)}
    (hrecur : ∀ part ∈ arguments, recur part = ofNumbered (read part)) :
    produceFunction line (first :: rest) recur function arguments =
      ofNumbered (Shape.readCall line first function (first :: rest) arguments
        fun part _ => read part) := by
  cases hobject : ObjectFunction.ofSpelling? function with
  | some object =>
    unfold produceFunction Shape.readCall
    rw [hobject]
    cases object with
    | new => exact produceMake_eq first rest .new arguments
    | fill => exact produceMake_eq first rest .fill arguments
    | extract => exact produceExtract_eq first rest hrecur
  | none =>
    cases htable : TableFunction.ofSpelling? function with
    | some tableFunction =>
      unfold produceFunction Shape.readCall
      rw [hobject, htable]
      exact produceLookUp_eq first rest tableFunction hrecur
    | none =>
      have hvalues := mapM_eq_ofNumbered fun part hpart =>
        produceArgument_eq line first rest part (hrecur part hpart)
      rw [Grammar.readCall_of_call hobject htable, produceFunction]
      simp [hobject, htable, hvalues]

/-! #### Rules with parts -/

variable (hrecur : ∀ part ∈ shape.parts, recur part = ofNumbered (read part))

include hrecur

theorem produceBranch_eq {kind : Branch} (h : branchShape? kind tokens = some shape) :
    produceBranch line tokens recur kind =
      ofNumbered (shape.read line fun part _ => read part) := by
  match tokens with
  | [] => cases h
  | first :: subject =>
    simp only [branchShape?, Option.ite_none_right_eq_some, Option.some.injEq] at h
    obtain ⟨_, rfl⟩ := h
    have hsubject := hrecur subject (by simp)
    cases subject with
    | nil => simp [produceBranch, Shape.read]
    | cons second rest =>
      rw [produceBranch, if_neg (by simp)]
      simp [Shape.read, hsubject]

theorem produceSpreadAssignment_eq (h : spreadAssignmentShape? tokens = some shape) :
    produceSpreadAssignment line tokens recur =
      ofNumbered (shape.read line fun part _ => read part) := by
  unfold spreadAssignmentShape? at h
  split at h
  · next first sign invoked =>
    simp only [Option.ite_none_right_eq_some, Option.some.injEq] at h
    obtain ⟨_, rfl⟩ := h
    have hinvoked := hrecur invoked (by simp)
    cases invoked with
    | nil => simp [produceSpreadAssignment, Shape.read]
    | cons start rest =>
      rw [produceSpreadAssignment, if_neg (by simp)]
      simp only [sliceFrom_two, pure_bind, hinvoked, Shape.read, ofNumbered_bind]
      refine bind_congr fun value => ?_
      cases value <;> simp
  · cases h

theorem produceDeclaration_eq (h : declarationShape? tokens = some shape) :
    produceDeclaration line tokens recur =
      ofNumbered (shape.read line fun part _ => read part) := by
  unfold declarationShape? at h
  split at h
  · next first second =>
    simp only [Option.bind_eq_bind, Option.bind_eq_some_iff] at h
    obtain ⟨type, htype, name, hname, h⟩ := h
    cases h
    simp [produceDeclaration, produceDefault, Shape.read, htype, hname]
  · next first second sign value =>
    simp only [Option.bind_eq_bind, Option.bind_eq_some_iff] at h
    obtain ⟨type, htype, name, hname, h⟩ := h
    split at h
    · cases h
      have hvalue := hrecur value (by simp)
      cases value with
      | nil => simp [produceDeclaration, produceDefault, Shape.read, htype, hname]
      | cons start rest =>
        have hlength : ¬ rest.length + 1 + 1 + 1 + 1 < 3 := by omega
        simp [produceDeclaration, produceDefault, Shape.read, htype, hname, hvalue, hlength]
    · cases h
  · cases h

theorem produceAssignment_eq (h : assignmentShape? tokens = some shape) :
    produceAssignment line tokens recur =
      ofNumbered (shape.read line fun part _ => read part) := by
  unfold assignmentShape? at h
  split at h
  · next first sign value =>
    simp only [Option.bind_eq_bind, Option.bind_eq_some_iff] at h
    obtain ⟨target, htarget, h⟩ := h
    split at h
    · cases h
      have hvalue := hrecur value (by simp)
      cases value with
      | nil => simp [produceAssignment, Shape.read, produceTarget_eq htarget]
      | cons start rest =>
      have hlength : ¬ rest.length + 1 + 1 + 1 < 3 := by omega
      simp [produceAssignment, Shape.read, produceTarget_eq htarget, hvalue, hlength]
    · cases h
  · cases h

theorem produceBinary_eq (h : binaryShape? tiers tokens = some shape) :
    produceBinary line tokens recur tiers =
      ofNumbered (shape.read line fun part _ => read part) := by
  unfold binaryShape? at h
  split at h
  · next first candidate candidates hfirst hcandidates =>
    have hhead := item_head hfirst
    split at h
    · next point hpoint =>
      obtain ⟨position, operator⟩ := point
      unfold binaryShapeAt? at h
      split at h
      · next sign right hdrop =>
        cases h
        obtain ⟨left, rfl, rfl⟩ := exists_of_drop_eq_cons hdrop
        rw [List.take_left] at hrecur ⊢
        have hleft := hrecur left (by simp)
        have hright := hrecur right (by simp)
        have hbefore : slice (left ++ sign :: right) 0 left.length = pure left := by
          simpa using slice_length [] left (sign :: right)
        have hafter : sliceFrom (left ++ sign :: right) (left.length + 1) = pure right := by
          simpa using sliceFrom_length (left ++ [sign]) right
        simp [produceBinary, Shape.read, hcandidates, hpoint, hbefore, hafter, item_length, hhead,
          hleft, hright]
      · cases h
    · next hpoint =>
      cases h
      simp [produceBinary, Shape.read, hcandidates, hpoint, hhead]
  · cases h

theorem produceGroup_eq (h : groupShape? tokens = some shape) :
    produceGroup line tokens recur = ofNumbered (shape.read line fun part _ => read part) := by
  unfold groupShape? at h
  split at h
  · next first rest =>
    simp only [Option.ite_none_right_eq_some, Option.some.injEq, Bool.and_eq_true] at h
    obtain ⟨⟨hfirst, hclose⟩, rfl⟩ := h
    obtain ⟨final, hrest, _⟩ := exists_inner_of_closesAtEnd [] hfirst rfl hclose
    obtain ⟨inner, rfl⟩ : ∃ inner, rest = inner ++ [final] := ⟨_, hrest⟩
    have hinner := hrecur inner (by simp)
    simp [produceGroup, Shape.read, hinner]
  · cases h

theorem produceIndexed_eq (h : indexedShape? tokens = some shape) :
    produceIndexed line tokens recur = ofNumbered (shape.read line fun part _ => read part) := by
  unfold indexedShape? at h
  split at h
  · next first bracket rest =>
    simp only [Option.bind_eq_bind, Option.bind_eq_some_iff] at h
    obtain ⟨table, htable, h⟩ := h
    split at h
    · next hbracket =>
      cases h
      rw [Bool.and_eq_true] at hbracket
      obtain ⟨final, hrest, _⟩ := exists_inner_of_closesAtEnd [first] hbracket.1 rfl hbracket.2
      obtain ⟨index, rfl⟩ : ∃ index, rest = index ++ [final] := ⟨_, hrest⟩
      have hindex := hrecur index (by simp)
      simp [produceIndexed, Shape.read, htable, hindex]
    · cases h
  · cases h

theorem produceCall_eq (h : callShape? tokens = some shape) :
    produceCall line tokens recur = ofNumbered (shape.read line fun part _ => read part) := by
  unfold callShape? at h
  split at h
  · next first bracket rest =>
    simp only [Option.bind_eq_bind, Option.bind_eq_some_iff] at h
    obtain ⟨function, hfunction, h⟩ := h
    split at h
    · next hbracket =>
      cases h
      rw [Bool.and_eq_true] at hbracket
      obtain ⟨final, hrest, _⟩ := exists_inner_of_closesAtEnd [first] hbracket.1 rfl hbracket.2
      obtain ⟨inner, rfl⟩ : ∃ inner, rest = inner ++ [final] := ⟨_, hrest⟩
      rw [List.dropLast_concat] at hrecur ⊢
      have hcall : produceCall line (first :: bracket :: (inner ++ [final])) recur =
          produceFunction line (first :: bracket :: (inner ++ [final])) recur function
            (Token.arguments inner) := by
        simp [produceCall, hfunction, Token.argumentsByPosition_eq]
      rw [hcall]
      exact produceFunction_eq first _ function hrecur
    · cases h
  · cases h

/-- What a rule produces is what is read from the shape, if its parts are read alike. -/
theorem produce_eq (rule : Rule) (h : rule.recognize? tiers tokens = some shape) :
    rule.produce line tokens recur tiers =
      ofNumbered (shape.read line fun part _ => read part) := by
  cases rule with
  | ifBranch | elseIfBranch | switch | case => exact produceBranch_eq hrecur h
  | elseBranch | default => exact produceFallback_eq h
  | spreadAssignment => exact produceSpreadAssignment_eq hrecur h
  | declaration => exact produceDeclaration_eq hrecur h
  | assignment => exact produceAssignment_eq hrecur h
  | binary => exact produceBinary_eq hrecur h
  | group => exact produceGroup_eq hrecur h
  | indexed => exact produceIndexed_eq hrecur h
  | call => exact produceCall_eq hrecur h
  | spread =>
    simp only [recognize?, spreadShape?] at h
    split at h
    · simp only [Option.ite_none_right_eq_some, Option.some.injEq] at h
      obtain ⟨_, rfl⟩ := h
      rfl
    · cases h
  | path | literal | name =>
    simp only [recognize?, pathShape?, literalShape?, nameShape?] at h
    split at h
    · obtain ⟨found, hfound, rfl⟩ := Option.map_eq_some_iff.1 h
      exact produceSingle_eq _ hfound
    · cases h

end Produced

end Rule

namespace Grammar

/-- Reads a run of tokens by the first rule that applies. Only shorter runs are read on the way. -/
def produce (grammar : Grammar) (line : Line) (tokens : List Token) : Guarded Expr := do
  match tokens.head? with
  | none => ofNumbered (throw (Fault.noTokens.located line.start))
  | some first =>
    match ← Rule.first? tokens grammar.rules with
    | none => fail line first (.invalidExpression (Token.describe tokens))
    | some rule =>
      rule.produce line tokens (fun part =>
        if _ : part.length < tokens.length then grammar.produce line part else breach .part)
        grammar.tiers
termination_by tokens.length

/-- What is recognized comes from the first rule that recognizes anything. -/
theorem recognize?_eq_bind_find? (grammar : Grammar) (tokens : List Token) :
    grammar.recognize? tokens =
      (grammar.rules.find? fun rule => (rule.recognize? grammar.tiers tokens).isSome).bind
        fun rule => rule.recognize? grammar.tiers tokens := by
  unfold recognize?
  induction grammar.rules with
  | nil => rfl
  | cons rule rules ih =>
    rw [List.findSome?_cons, List.find?_cons]
    cases hrule : rule.recognize? grammar.tiers tokens with
    | none => exact ih
    | some shape => exact hrule.symm

theorem produce_eq_ofNumbered (grammar : Grammar) (line : Line) (tokens : List Token) :
    grammar.produce line tokens = ofNumbered (grammar.read line tokens) := by
  induction hlength : tokens.length using Nat.strongRecOn generalizing tokens with
  | ind length ih =>
    subst hlength
    rw [produce]
    cases tokens with
    | nil =>
      rw [read]
      rfl
    | cons first rest =>
      simp only [List.head?_cons, Rule.first?_eq grammar.tiers, pure_bind]
      have hshape := grammar.recognize?_eq_bind_find? (first :: rest)
      cases hrule : grammar.rules.find? fun rule =>
          (rule.recognize? grammar.tiers (first :: rest)).isSome with
      | none =>
        rw [hrule, Option.bind_none] at hshape
        rw [read_of_recognize?_eq_none hshape]
        rfl
      | some rule =>
        rw [hrule, Option.bind_some] at hshape
        have hsome := List.find?_some hrule
        obtain ⟨shape, hfound⟩ := Option.isSome_iff_exists.1 hsome
        rw [hfound] at hshape
        rw [read_of_recognize? (List.cons_ne_nil _ _) hshape]
        refine Rule.produce_eq (fun part hpart => ?_) rule hfound
        have hlt := length_lt_of_recognize? hshape hpart
        rw [dif_pos hlt]
        exact ih _ hlt part rfl

/-- Reading by positions, whatever the rules and their order, the tiers and the tokens, is reading
by shapes: all that it relies on holds, so that it ends in no breach. -/
theorem produce_unbroken (grammar : Grammar) (line : Line) (tokens : List Token) :
    grammar.produce line tokens = ofNumbered (grammar.read line tokens) ∧
      ∀ next breach, (grammar.produce line tokens next).1 ≠ .error (.breach breach) := by
  have hread := grammar.produce_eq_ofNumbered line tokens
  refine ⟨hread, fun next breach => ?_⟩
  rw [hread]
  exact ofNumbered_ne_breach _ next breach

/-- Where a rule does not apply, what it relies on need not hold. -/
example (line : Line) (recur : List Token → Guarded Expr) :
    (Rule.produceGroup line [⟨.operator .openParenthesis, 1⟩] recur 0).1 =
      .error (.breach .slice) := rfl

end Grammar

end DecisionLang
