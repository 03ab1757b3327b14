import MiniScheme.Proofs.FormShapes
import MiniScheme.Proofs.Nodes
import MiniScheme.Proofs.PrintedExpr

/-!
# Parameters are read exactly and print back

Parameters are written as one name for all arguments, as a list of names, or as a list of names
with a dot before the last. `Form.Declares` says which expressions these are and what parameters
they declare, case by case. The reader goes through a list once and looks for the dot on the way,
at whatever position it comes, and it checks the names only when it has them all.

The printer writes parameters in the shortest way: parameters with nothing but a rest name are
written as that name, although they may have been read from a list that begins with the dot. So the
printed form is not always what was read. It is the printed form of an expression nevertheless
(`Formals.written`), and one that declares the same parameters. Names that were read from a text can
be written, and so the reader finds them again.

## Main results

* `Form.readFormals?_eq_some_iff`: the expressions that are read as parameters.
* `Formals.render_written`: printing parameters is printing an expression.
* `Form.formals_are_read_exactly_and_print_back`: both, for the parameters in any text.
-/

namespace MiniScheme

/-! ## What is read as parameters -/

namespace Form

theorem isBindable_iff {name : String} : isBindable name = true ↔ name ∉ reserved := by
  simp [isBindable]

/-- What parameters an expression declares: a name takes all arguments; a list of names takes one
argument for each; with a dot and one more name behind them, that name takes the others. The names
are different, and none of them is reserved. -/
inductive Declares : Expr → Formals → Prop where
  | rest {l : Option Location} {name : String} (hName : name ∉ reserved) :
      Declares (.symbol l name) ⟨[], some name⟩
  | fixed {l : Option Location} {es : List Expr} {names : List String} (hNames : Spells es names)
      (hFree : ∀ name ∈ names, name ∉ reserved) (hDistinct : names.Nodup) :
      Declares (.list l es) ⟨names, none⟩
  | dotted {l : Option Location} {es : List Expr} {dot last : Expr} {names : List String}
      {rest : String} (hNames : Spells es names) (hDot : dot.name? = some ".")
      (hLast : last.name? = some rest) (hFree : ∀ name ∈ names ++ [rest], name ∉ reserved)
      (hDistinct : (names ++ [rest]).Nodup) :
      Declares (.list l (es ++ [dot, last])) ⟨names, some rest⟩

/-- Expressions that are written with two runs of symbols are two runs of expressions. -/
theorem Spells.exists_append {es : List Expr} {names names' : List String}
    (h : Spells es (names ++ names')) :
    ∃ es₁ es₂, es = es₁ ++ es₂ ∧ Spells es₁ names ∧ Spells es₂ names' :=
  ⟨es.take names.length, es.drop names.length, (List.take_append_drop _ es).symm,
    List.forall₂_take_append es names names' h, List.forall₂_drop_append es names names' h⟩

theorem declares_of_readFormals? {x : Expr} {formals : Formals}
    (h : readFormals? x = some formals) : Declares x formals := by
  cases x with
  | number l n => cases h
  | symbol l name =>
      obtain ⟨rest, hRest, rfl⟩ := Option.map_eq_some_iff.1 h
      obtain ⟨hName, hBindable⟩ := bindable?_eq_some_iff.1 hRest
      cases hName
      exact .rest (isBindable_iff.1 hBindable)
  | list l es =>
      obtain ⟨hSpells, hDistinct, hBindable⟩ := readFormalList?_eq_some_iff.1 h
      have hFree : ∀ name ∈ formals.names, name ∉ reserved := fun name hName =>
        isBindable_iff.1 (hBindable name hName)
      obtain ⟨names, rest⟩ := formals
      cases rest with
      | none =>
          rw [Formals.names, Option.toList_none, List.append_nil] at hFree hDistinct
          exact .fixed hSpells hFree hDistinct
      | some rest =>
          -- The symbols are the names, the dot and the rest name.
          obtain ⟨es, ends, rfl, hNames, hEnds⟩ := Spells.exists_append hSpells
          obtain ⟨dot, ends, hDot, hLast, rfl⟩ := List.forall₂_cons_right_iff.1 hEnds
          obtain ⟨last, ends, hRest, hNil, rfl⟩ := List.forall₂_cons_right_iff.1 hLast
          cases hNil
          exact .dotted hNames hDot hRest hFree hDistinct

theorem readFormals?_of_declares {x : Expr} {formals : Formals} (h : Declares x formals) :
    readFormals? x = some formals := by
  cases h with
  | rest hName => rw [readFormals?, bindable?_symbol (isBindable_iff.2 hName), Option.map_some]
  | @fixed l es names hNames hFree hDistinct =>
      have hAll : Formals.names ⟨names, none⟩ = names := List.append_nil names
      refine readFormalList?_eq_some_iff.2 ⟨hNames, by rwa [hAll], fun name hName => ?_⟩
      rw [hAll] at hName
      exact isBindable_iff.2 (hFree name hName)
  | @dotted l es dot last names rest hNames hDot hLast hFree hDistinct =>
      refine readFormalList?_eq_some_iff.2 ⟨?_, hDistinct, fun name hName => ?_⟩
      · exact List.rel_append hNames (.cons hDot (.cons hLast .nil))
      · exact isBindable_iff.2 (hFree name hName)

/-- Parameters are read from exactly the expressions that declare them. -/
theorem readFormals?_eq_some_iff {x : Expr} {formals : Formals} :
    readFormals? x = some formals ↔ Declares x formals :=
  ⟨declares_of_readFormals?, readFormals?_of_declares⟩

end Form

/-! ## The expression that is printed -/

/-- The names are printed with single spaces between them. -/
theorem Expr.renderItems_symbols : ∀ names : List String,
    renderItems (names.map (Expr.symbol none)) = " ".intercalate names
  | [] => by rw [List.map_nil, renderItems, String.intercalate_nil]
  | [name] => by
      rw [List.map_singleton, renderItems, render, String.intercalate_singleton]
  | name :: name' :: names => by
      have hRest := renderItems_symbols (name' :: names)
      rw [List.map_cons] at hRest ⊢
      rw [List.map_cons, renderItems, hRest, render, String.intercalate_cons_cons]

namespace Formals

/-- The expression that parameters are written as. -/
def written (f : Formals) : Expr :=
  match f.fixed, f.rest with
  | [], some rest => .symbol none rest
  | _, _ => .list none (f.symbols.map (.symbol none))

/-- Unless there is nothing but a rest name, parameters are written as a list. -/
theorem written_cases (f : Formals) :
    (∃ rest, f = ⟨[], some rest⟩ ∧ f.written = .symbol none rest) ∨
      f.written = .list none (f.symbols.map (.symbol none)) := by
  obtain ⟨fixed, rest⟩ := f
  cases fixed with
  | nil =>
      cases rest with
      | none => exact .inr rfl
      | some rest => exact .inl ⟨rest, rfl, rfl⟩
  | cons name names => exact .inr rfl

/-- Parameters are printed as the expression that they are written as. -/
theorem render_written (f : Formals) : f.written.render = f.render := by
  have hList : (Expr.list none (f.symbols.map (.symbol none))).render =
      "(" ++ " ".intercalate f.symbols ++ ")" := by
    rw [Expr.render, Expr.renderItems_symbols]
  obtain ⟨fixed, rest⟩ := f
  cases fixed with
  | nil =>
      cases rest with
      | none => exact hList
      | some rest => rw [written, Expr.render, render]
  | cons name names =>
      cases rest with
      | none => exact hList
      | some rest =>
          have hEnd : " " ++ " ".intercalate [".", rest] = " . " ++ rest := by
            rw [String.intercalate_cons_cons, String.intercalate_singleton, ← String.append_assoc]
            rfl
          calc
            (written ⟨name :: names, some rest⟩).render =
                "(" ++ " ".intercalate (name :: names ++ [".", rest]) ++ ")" := hList
            _ = "(" ++ (" ".intercalate (name :: names) ++
                (" " ++ " ".intercalate [".", rest])) ++ ")" := by
              rw [String.intercalate_append_of_ne_nil (by simp) (by simp)]
              simp only [String.append_assoc]
            _ = "(" ++ " ".intercalate (name :: names) ++ " . " ++ rest ++ ")" := by
              rw [hEnd, ← String.append_assoc, ← String.append_assoc]

theorem readFormals?_written {f : Formals} (h : f.Valid) :
    Form.readFormals? f.written = some f := by
  rcases f.written_cases with ⟨rest, rfl, hWritten⟩ | hWritten
  · have hBindable : Form.isBindable rest = true := h.bindable rest List.mem_cons_self
    rw [hWritten, Form.readFormals?, Form.bindable?_symbol hBindable, Option.map_some]
  · rw [hWritten, Form.readFormals?, Form.readFormalList?_eq_some_iff]
    exact ⟨List.forall₂_map_left_iff.2 (List.forall₂_same.2 fun _ _ => rfl), h⟩

/-- Parameters with names that can be written, written themselves. -/
theorem readable_written {f : Formals} (h : ∀ name ∈ f.names, (Expr.symbol none name).Readable) :
    f.written.Readable := by
  have hDot : (Expr.symbol none ".").Readable := .symbol none (by decide) (by decide)
  rcases f.written_cases with ⟨rest, rfl, hWritten⟩ | hWritten
  · rw [hWritten]
    exact h rest List.mem_cons_self
  · rw [hWritten]
    refine .list none (List.forall_mem_map.2 fun name hName => ?_)
    obtain ⟨fixed, rest⟩ := f
    cases rest with
    | none => exact h name (List.mem_append_left _ hName)
    | some rest =>
        have hCases : name ∈ fixed ∨ name = "." ∨ name = rest := by
          simpa [symbols] using hName
        rcases hCases with hFixed | rfl | rfl
        · exact h name (List.mem_append_left _ hFixed)
        · exact hDot
        · exact h name (List.mem_append_right _ (by simp))

/-- Parameters that can be written are read back from their printed form. -/
theorem ofSource_render {f : Formals} (hValid : f.Valid)
    (hNames : ∀ name ∈ f.names, (Expr.symbol none name).Readable) :
    ∃ e, Expr.ofSource f.render = .ok e ∧ Form.readFormals? e = some f := by
  obtain ⟨e, hRead, hRelaid⟩ := Expr.ofSource_render (readable_written hNames)
  rw [render_written] at hRead
  exact ⟨e, hRead, (Form.readFormals?_congr hRelaid).symm.trans (readFormals?_written hValid)⟩

end Formals

/-! ## Parameters in a text -/

/-- The nodes of an expression that can be written can be written. -/
theorem Expr.Readable.node {x e : Expr} (h : e.Readable) (hx : x.IsNodeOf e) : x.Readable := by
  induction hx with
  | self => exact h
  | item he _ ih =>
      cases h with
      | list l hItems => exact ih (hItems _ he)

namespace Form

theorem valid_of_readFormals? {x : Expr} {formals : Formals}
    (h : readFormals? x = some formals) : formals.Valid := by
  have hCode := wellFormed_of_readFormals? h (.list none []) []
  exact ⟨hCode.nodup, hCode.bindable⟩

/-- Parameters are read exactly and print back.

* An expression is read as parameters if and only if it declares them: it is a name, or a list of
  different names, possibly with a dot before the last; the names are then those of the parameters,
  in order, and the lone name or the one behind the dot is the rest name.
* Parameters that are read from any expression inside a text, or behind the first element of a list
  inside a text, are read again from their printed form. -/
theorem formals_are_read_exactly_and_print_back :
    (∀ (x : Expr) (formals : Formals), readFormals? x = some formals ↔ Declares x formals) ∧
    ∀ (source : String) (e x : Expr) (formals : Formals),
      Expr.ofSource source = .ok e ∨ .ok e ∈ Expr.forms (Token.scan source) → x.IsNodeOf e →
      readFormals? x = some formals ∨
        (∃ l name es, x = .list l (name :: es) ∧ readFormalList? es = some formals) →
      ∃ e', Expr.ofSource formals.render = .ok e' ∧ readFormals? e' = some formals := by
  refine ⟨fun x formals => readFormals?_eq_some_iff, ?_⟩
  intro source e x formals hText hNode hFormals
  have hReadable : x.Readable :=
    (hText.elim Expr.readable_of_ofSource Expr.readable_of_mem_forms).node hNode
  -- The parameters of a definition are a list that lacks its first element.
  obtain ⟨y, hy, hRead⟩ : ∃ y : Expr, y.Readable ∧ readFormals? y = some formals := by
    rcases hFormals with hRead | ⟨l, name, es, rfl, hRead⟩
    · exact ⟨x, hReadable, hRead⟩
    · cases hReadable with
      | list l hItems =>
          exact ⟨.list l es, .list l fun e he => hItems e (List.mem_cons_of_mem _ he), hRead⟩
  exact Formals.ofSource_render (valid_of_readFormals? hRead) fun name hName =>
    hy.of_mentions (mentions_of_readFormals? hRead name hName)

/-- A list that begins with the dot declares what its only name declares, and is printed as that
name. -/
theorem formals_of_leading_dot :
    let params : Expr :=
      .list (some ⟨1, 9⟩) [.symbol (some ⟨1, 10⟩) ".", .symbol (some ⟨1, 12⟩) "r"]
    let formals : Formals := ⟨[], some "r"⟩
    (∃ e, Expr.ofSource "(lambda (. r) r)" = .ok e ∧ params.IsNodeOf e) ∧
      readFormals? params = some formals ∧
      ∃ e', Expr.ofSource "r" = .ok e' ∧ readFormals? e' = some formals := by
  intro params formals
  obtain ⟨hExact, hPrinted⟩ := formals_are_read_exactly_and_print_back
  have hText : Expr.ofSource "(lambda (. r) r)" = .ok (.list (some ⟨1, 1⟩)
      [.symbol (some ⟨1, 2⟩) "lambda", params, .symbol (some ⟨1, 15⟩) "r"]) := rfl
  have hNode : params.IsNodeOf (.list (some ⟨1, 1⟩)
      [.symbol (some ⟨1, 2⟩) "lambda", params, .symbol (some ⟨1, 15⟩) "r"]) :=
    .item (List.mem_cons_of_mem _ List.mem_cons_self) .self
  have hDeclares : Declares params formals :=
    @Declares.dotted _ [] _ _ [] "r" .nil rfl rfl (by decide) (by decide)
  have hFormals : readFormals? params = some formals := (hExact params formals).2 hDeclares
  exact ⟨⟨_, hText, hNode⟩, hFormals, hPrinted _ _ _ _ (.inl hText) hNode (.inl hFormals)⟩

end Form

end MiniScheme
