import CrossAsm.Proofs.Binding.Matching
import CrossAsm.Proofs.Nesting.Respelled
import CrossAsm.Proofs.Resolve.WellNested

/-! Other names for parameters: an inline function in which a parameter is renamed throughout is
spliced in as the same statements. -/

namespace CrossAsm

/-! ### Entries under other keys -/

namespace Entries

variable {κ α : Type} [DecidableEq κ] {pairs : List (κ × α)}

/-- Where keys are renamed, a key has the value it had if no other key has its new name. -/
theorem get?_ofPairs_map {rename : κ → κ} {key : κ}
    (apart : ∀ pair ∈ pairs, rename pair.1 = rename key → pair.1 = key) :
    get? (rename key) (ofPairs (pairs.map (Prod.map rename id))) = get? key (ofPairs pairs) := by
  -- Pair by pair, whatever was inserted before.
  have inserts : ∀ before after : List (κ × α), get? (rename key) after = get? key before →
      get? (rename key) ((pairs.map (Prod.map rename id)).foldl
        (fun entries pair => insert pair.1 pair.2 entries) after) =
      get? key (pairs.foldl (fun entries pair => insert pair.1 pair.2 entries) before) := by
    induction pairs with
    | nil => exact fun _ _ same => same
    | cons pair others ih =>
      obtain ⟨here, rest⟩ := List.forall_mem_cons.1 apart
      intro before after same
      refine ih rest _ _ ?_
      simp only [Prod.map_fst, Prod.map_snd, id, get?_insert, same]
      by_cases found : pair.1 = key
      · rw [if_pos found, if_pos (congrArg rename found)]
      · rw [if_neg found, if_neg (mt here found)]
  exact inserts [] [] rfl

/-- A key of a pair has a value. -/
theorem isSome_get?_ofPairs {key : κ} (inside : key ∈ pairs.map Prod.fst) :
    (get? key (ofPairs pairs)).isSome = true := by
  -- A later pair of the key takes the place of its value.
  have inserts : ∀ entries : List (κ × α),
      key ∈ pairs.map Prod.fst ∨ (get? key entries).isSome = true →
      (get? key (pairs.foldl (fun entries pair => insert pair.1 pair.2 entries) entries)).isSome =
        true := by
    clear inside
    induction pairs with
    | nil => exact fun _ either => either.resolve_left (List.not_mem_nil)
    | cons pair others ih =>
      intro entries either
      refine ih _ ?_
      rw [get?_insert]
      by_cases found : pair.1 = key
      · exact .inr (by rw [if_pos found]; rfl)
      · rw [if_neg found]
        refine either.imp_left fun mem => ?_
        exact (List.mem_cons.1 mem).resolve_left (Ne.symm found)
  exact inserts [] (.inl inside)

end Entries

/-! ### Values -/

namespace Expr

/-- Whether a value mentions a name by itself. -/
def mentions (name : String) : Expr → Bool
  | .name path => path == name
  | .unary _ e => e.mentions name
  | .binary _ l r => l.mentions name || r.mentions name
  | .number _ | .ref _ | .sizeof _ => false

/-- A value in which one name stands for another. -/
def renamed (p q : String) (e : Expr) : Expr :=
  e.substitute [(p, .name q)]

variable {p q : String} {e : Expr}

/-- A value that does not mention the name stays as it is. -/
theorem renamed_of_mentions (unused : e.mentions p = false) : e.renamed p q = e := by
  -- By induction on the value.
  unfold renamed
  induction e with
  | number | ref | sizeof => rfl
  | name path =>
    have other : path ≠ p := by simpa [mentions] using unused
    simp [substitute, Entries.get?, Ne.symm other]
  | unary op e ih => rw [substitute, ih unused]
  | binary op l r ihl ihr =>
    simp only [mentions, Bool.or_eq_false_iff] at unused
    rw [substitute, ihl unused.1, ihr unused.2]

/-- A renamed value does not mention the old name. -/
theorem mentions_renamed (apart : p ≠ q) (e : Expr) : (e.renamed p q).mentions p = false := by
  -- By induction on the value, in which a name is replaced or another one.
  unfold renamed
  induction e with
  | number | ref | sizeof => rfl
  | name path =>
    by_cases here : p = path
    · simpa [substitute, Entries.get?, here, mentions] using Ne.symm (here ▸ apart)
    · simpa [substitute, Entries.get?, here, mentions] using Ne.symm here
  | unary op e ih => exact ih
  | binary op l r ihl ihr => simp [substitute, mentions, ihl, ihr]

/-- With other arguments, that have under the new name what the old one had, a renamed value becomes
the same. -/
theorem substitute_renamed {args args' : List (String × Expr)} (unused : e.mentions q = false)
    (bound : (Entries.get? p args).isSome = true)
    (moved : Entries.get? q args' = Entries.get? p args)
    (others : ∀ name, name ≠ p → name ≠ q → Entries.get? name args' = Entries.get? name args) :
    (e.renamed p q).substitute args' = e.substitute args := by
  -- By induction on the value.
  unfold renamed
  induction e with
  | number | ref | sizeof => rfl
  | name path =>
    have other : path ≠ q := by simpa [mentions] using unused
    by_cases here : path = p
    · -- The parameter has an argument under either name.
      subst here
      obtain ⟨value, found⟩ := Option.isSome_iff_exists.1 bound
      simp [substitute, Entries.get?, moved, found]
    · simp [substitute, Entries.get?, Ne.symm here, others path here other]
  | unary op e ih => rw [substitute, substitute, substitute, ih unused]
  | binary op l r ihl ihr =>
    simp only [mentions, Bool.or_eq_false_iff] at unused
    rw [substitute, substitute, substitute, ihl unused.1, ihr unused.2]

/-- Renaming back gives the value that was renamed. -/
theorem renamed_renamed (unused : e.mentions q = false) : (e.renamed p q).renamed q p = e := by
  -- By induction on the value.
  unfold renamed
  induction e with
  | number | ref | sizeof => rfl
  | name path =>
    have other : path ≠ q := by simpa [mentions] using unused
    by_cases here : p = path
    · simp [substitute, Entries.get?, here]
    · simp [substitute, Entries.get?, here, Ne.symm other]
  | unary op e ih => rw [substitute, substitute, ih unused]
  | binary op l r ihl ihr =>
    simp only [mentions, Bool.or_eq_false_iff] at unused
    rw [substitute, substitute, ihl unused.1, ihr unused.2]

/-- A value, or nothing in its place if it mentions a name. -/
def blanked (name : String) (e : Expr) : Expr :=
  if e.mentions name then .number 0 else e

/-- What is left does not mention the name. -/
theorem mentions_blanked (name : String) (e : Expr) : (e.blanked name).mentions name = false := by
  -- The value is blanked out where it mentions the name.
  unfold blanked
  split
  · rfl
  · rename_i unused
    exact eq_false_of_ne_true unused

/-- A value that does not mention the name is left. -/
theorem blanked_of_mentions {name : String} (unused : e.mentions name = false) :
    e.blanked name = e := by
  -- Blanking looks for the name first.
  rw [blanked, unused]
  rfl

end Expr

/-! ### Statements -/

/-- A name, or another one in its place if it is the one to be replaced. -/
def replacedName (p q name : String) : String :=
  if name = p then q else name

namespace Respelling

/-- A parameter under another name, in the values and among the parameters. -/
def rename (p q : String) : Respelling :=
  ⟨Expr.renamed p q, List.map (replacedName p q)⟩

/-- Nothing in place of values that mention a name. -/
def blank (name : String) : Respelling :=
  ⟨Expr.blanked name, id⟩

/-- A parameter under another name, and nothing in place of values that mention that name before. -/
def renameFresh (p q : String) : Respelling :=
  ⟨fun e => (e.blanked q).renamed p q, List.map (replacedName p q)⟩

end Respelling

namespace Resolve

section Spliced

variable {a b : Respelling} {args args' : List (String × Expr)}
  (alike : ∀ e, (b.value e).substitute args' = (a.value e).substitute args)

include alike

/-- A variable, spelled and then spliced in. -/
theorem spliceVariable_respelled (var : Variable) :
    spliceVariable args' (var.respelled b) = spliceVariable args (var.respelled a) := by
  -- The length, the address and the initializer are what is spelled.
  obtain ⟨type, name, shared, dim, address, init, ns, size, pos⟩ := var
  simp only [spliceVariable, Variable.respelled, Option.map_map, Variable.mk.injEq, true_and,
    and_true]
  refine ⟨?_, ?_, ?_⟩
  · cases dim <;> simp [Dim.respelled, alike]
  · cases address <;> simp [alike]
  · obtain _ | ⟨exprs | content, pos⟩ := init
    · rfl
    · simp [Initializer.respelled, alike]
    · rfl

/-- A flat item that is kept in a tree, spelled and then spliced in. -/
theorem spliceItem_respelled (chain : List String) {item : Item} (kept : item.isRead = false) :
    spliceItem args' chain (item.respelled b) = spliceItem args chain (item.respelled a) := by
  -- By cases on the item; those that nesting reads are in no tree.
  cases item with
  | instruction line =>
    obtain ⟨op, operand, mode, ns, pos⟩ := line
    cases operand <;> simp [Item.respelled, spliceItem, Operand.map, alike]
  | call c => simp [Item.respelled, spliceItem, alike]
  | var var => simp only [Item.respelled, spliceItem, spliceVariable_respelled alike]
  | initializer | typeDecl | functionDecl | clause => cases kept
  | _ => rfl

/-- A block whose statements are spliced in as the same. -/
theorem spliceBlock_respelled (chain : List String) {block : Block Stmt}
    (same : ∀ s ∈ block.body,
      splice args' chain (s.respelled b) = splice args chain (s.respelled a)) :
    spliceBlock args' chain (Stmt.respelledBlock b block) =
      spliceBlock args chain (Stmt.respelledBlock a block) := by
  obtain ⟨⟨kind, pos⟩, body, isOpen⟩ := block
  simp only [Stmt.respelledBlock_eq, spliceBlock, spliceAll_eq, List.map_map, Block.mk.injEq,
    and_true]
  refine ⟨?_, List.map_congr_left same⟩
  -- Of the keywords only a case has a value.
  cases kind with
  | caseOf value => simp [Clause.respelled, spliceClause, alike]
  | _ => rfl

/-- A well-formed tree, spelled and then spliced in. -/
theorem splice_respelled (chain : List String) {s : Stmt} (nested : s.WellNested) :
    splice args' chain (s.respelled b) = splice args chain (s.respelled a) := by
  -- By induction on the tree.
  induction nested with
  | item kept => simp only [Stmt.respelled, splice, spliceItem_respelled alike chain kept]
  | function => simp only [Stmt.respelled, splice]
  | @conditional cond finished inside ih =>
    have blocks : ∀ block ∈ cond.blocks, spliceBlock args' chain (Stmt.respelledBlock b block) =
        spliceBlock args chain (Stmt.respelledBlock a block) :=
      fun block among => spliceBlock_respelled alike chain (ih block among)
    obtain ⟨first, others⟩ := List.forall_mem_cons.1 blocks
    rw [Stmt.respelled_conditional, Stmt.respelled_conditional, splice_conditional,
      splice_conditional]
    simp only [spliceConditional, Conditional.respelled, List.map_map, first,
      List.map_congr_left (f := spliceBlock args' chain ∘ Stmt.respelledBlock b) others]
    rfl

end Spliced

end Resolve

/-! ### Functions -/

section Parameters

variable {p q : String}

/-- The new name is that of the replaced one only, among names that it is not one of. -/
theorem replacedName_inj {name other : String} (apart : name ≠ q) (apart' : other ≠ q)
    (same : replacedName p q other = replacedName p q name) : other = name := by
  -- Both names are replaced, one of them, or none.
  unfold replacedName at same
  split at same
  · split at same
    · simp_all
    · exact (apart same.symm).elim
  · split at same
    · exact (apart' same).elim
    · exact same

/-- A value that does not mention the new name of a parameter becomes the same with the same
arguments. -/
theorem Expr.substitute_zip {params : List String} {values : List Expr} (param : p ∈ params)
    (fresh : q ∉ params) (sized : values.length = params.length) {e : Expr}
    (unused : e.mentions q = false) :
    (e.renamed p q).substitute (Entries.ofPairs ((params.map (replacedName p q)).zip values)) =
      e.substitute (Entries.ofPairs (params.zip values)) := by
  have keys : (params.zip values).map Prod.fst = params :=
    List.map_fst_zip (Nat.le_of_eq sized.symm)
  -- Every name but the new one has the argument that it had.
  have moves : ∀ name, name ≠ q →
      Entries.get? (replacedName p q name)
        (Entries.ofPairs ((params.map (replacedName p q)).zip values)) =
      Entries.get? name (Entries.ofPairs (params.zip values)) := by
    intro name apart
    rw [List.zip_map_left]
    refine Entries.get?_ofPairs_map fun pair inside same => replacedName_inj apart ?_ same
    rintro rfl
    exact fresh (List.of_mem_zip inside).1
  have bound : p ∈ (params.zip values).map Prod.fst := by rwa [keys]
  refine substitute_renamed unused (Entries.isSome_get?_ofPairs bound) ?_ fun name other apart => ?_
  · have moved := moves p fun same => fresh (same ▸ param)
    rwa [replacedName, if_pos rfl] at moved
  · have moved := moves name apart
    rwa [replacedName, if_neg other] at moved

/-- No call can tell an inline function from the one in which a parameter has another name, if the
statements do not mention that name. -/
theorem FunctionSymbol.matches_renamed {decl : FunctionDecl} {body : List Stmt}
    (param : p ∈ decl.params) (fresh : q ∉ decl.params) (nested : ∀ s ∈ body, s.WellNested)
    (unused : body.map (Stmt.respelled (.blank q)) = body) (entry : Option String) :
    FunctionSymbol.Matches ⟨decl, body, entry⟩
      ⟨decl.respelled (.renameFresh p q), body.map (Stmt.respelled (.renameFresh p q)), entry⟩ := by
  refine ⟨rfl, rfl, rfl, List.length_map .., fun values chain sized => ?_⟩
  have alike : ∀ e : Expr,
      ((e.blanked q).renamed p q).substitute
          (Entries.ofPairs ((decl.params.map (replacedName p q)).zip values)) =
        (e.blanked q).substitute (Entries.ofPairs (decl.params.zip values)) :=
    fun e => Expr.substitute_zip param fresh sized (e.mentions_blanked q)
  -- Blanking out what mentions the name changes nothing, so both are spelled from the same.
  have spliced : ∀ s ∈ body, Resolve.splice _ chain (s.respelled (.renameFresh p q)) =
      Resolve.splice _ chain (s.respelled (.blank q)) :=
    fun s inside => Resolve.splice_respelled alike chain (nested s inside)
  rw [Resolve.spliceAll_eq, Resolve.spliceAll_eq, List.map_map]
  refine (List.map_congr_left spliced).trans ?_
  conv_rhs => rw [← unused, List.map_map]
  rfl

end Parameters

end CrossAsm
