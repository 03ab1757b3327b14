import MiniScheme.Form

/-!
# The parts of a special form

Reading a special form takes it apart. `Form.Within operands` says what the parts have to do with
the operands they were read from: every expression in them is one of the operands, or sits in a
list that is one, and a sequence that will be evaluated for its last value is not empty. The code
of a procedure is moreover well-formed: its body is not empty, and its parameters are different
names, none of which has a fixed meaning. `Form.Introduces operands` says the same of the names that
a form binds: they occur in the operands, and can be bound.

`Form.reads_of_read?` is the place where the shapes of the special forms are taken apart for proofs;
the rest is derived from the cases of `Form.Reads`.
-/

namespace MiniScheme

/-- Code of a procedure that can be called: it has something to evaluate, and its parameters have
different names that can be bound. -/
structure Lambda.WellFormed (code : Lambda) : Prop where
  body_ne_nil : code.body ≠ []
  nodup : code.formals.names.Nodup
  bindable : ∀ name ∈ code.formals.names, Form.isBindable name = true

/-- A form with the keyword changes definitions of frames that there were before. -/
def Keyword.Assigns (keyword : Keyword) : Prop :=
  keyword = .define ∨ keyword = .set ∨ keyword = .del

instance (keyword : Keyword) : Decidable keyword.Assigns :=
  inferInstanceAs (Decidable (_ ∨ _ ∨ _))

/-- The name occurs in the expression. -/
inductive Expr.Mentions (name : String) : Expr → Prop where
  | symbol {l : Option Location} : Mentions name (.symbol l name)
  | list {l : Option Location} {es : List Expr} {e : Expr} (he : e ∈ es) (h : Mentions name e) :
      Mentions name (.list l es)

namespace Form

/-! ## Names -/

theorem isBindable_of_bindable? {e : Expr} {name : String} (h : bindable? e = some name) :
    isBindable name = true :=
  (Option.filter_eq_some_iff.1 h).2

theorem mentions_of_bindable? {e : Expr} {name : String} (h : bindable? e = some name) :
    e.Mentions name := by
  have hName := (Option.filter_eq_some_iff.1 h).1
  cases e with
  | symbol l other => cases hName; exact .symbol
  | _ => cases hName

theorem bindable_of_readNames? {es : List Expr} {formals : Formals}
    (h : readNames? es = some formals) : ∀ name ∈ formals.names, isBindable name = true := by
  induction es generalizing formals with
  | nil => cases h; simp [Formals.names]
  | cons e es ih =>
      unfold readNames? at h
      split at h
      · -- Behind a dot: exactly one name, the rest name.
        split at h
        · obtain ⟨rest, hRest, rfl⟩ := Option.map_eq_some_iff.1 h
          intro name hName
          obtain rfl : name = rest := by simpa [Formals.names] using hName
          exact isBindable_of_bindable? hRest
        · cases h
      · obtain ⟨first, hFirst, hOthers⟩ := Option.bind_eq_some_iff.1 h
        obtain ⟨others, hRead, rfl⟩ := Option.map_eq_some_iff.1 hOthers
        intro name hName
        rcases List.mem_cons.1 hName with rfl | hName
        · exact isBindable_of_bindable? hFirst
        · exact ih hRead name hName

/-- A parameter list that was read gives well-formed code with any body that is not empty. -/
theorem wellFormed_of_readFormalList? {es : List Expr} {formals : Formals}
    (h : readFormalList? es = some formals) (e : Expr) (body : List Expr) :
    Lambda.WellFormed ⟨formals, e :: body⟩ := by
  obtain ⟨hNames, hNodup⟩ := Option.filter_eq_some_iff.1 h
  exact ⟨by simp, of_decide_eq_true hNodup, bindable_of_readNames? hNames⟩

theorem wellFormed_of_readFormals? {x : Expr} {formals : Formals}
    (h : readFormals? x = some formals) (e : Expr) (body : List Expr) :
    Lambda.WellFormed ⟨formals, e :: body⟩ := by
  cases x with
  | number l n => cases h
  | list l es => exact wellFormed_of_readFormalList? h e body
  | symbol l name =>
      obtain ⟨rest, hRest, rfl⟩ := Option.map_eq_some_iff.1 h
      refine ⟨by simp, by simp [Formals.names], fun name hName => ?_⟩
      obtain rfl : name = rest := by simpa [Formals.names] using hName
      exact isBindable_of_bindable? hRest

theorem mentions_of_readNames? {es : List Expr} {formals : Formals}
    (h : readNames? es = some formals) : ∀ name ∈ formals.names, ∃ e ∈ es, e.Mentions name := by
  induction es generalizing formals with
  | nil => cases h; simp [Formals.names]
  | cons e es ih =>
      unfold readNames? at h
      split at h
      · split at h
        · next last =>
            obtain ⟨rest, hRest, rfl⟩ := Option.map_eq_some_iff.1 h
            intro name hName
            obtain rfl : name = rest := by simpa [Formals.names] using hName
            exact ⟨last, by simp, mentions_of_bindable? hRest⟩
        · cases h
      · obtain ⟨first, hFirst, hOthers⟩ := Option.bind_eq_some_iff.1 h
        obtain ⟨others, hRead, rfl⟩ := Option.map_eq_some_iff.1 hOthers
        intro name hName
        rcases List.mem_cons.1 hName with rfl | hName
        · exact ⟨e, by simp, mentions_of_bindable? hFirst⟩
        · obtain ⟨e', he', hMentions⟩ := ih hRead name hName
          exact ⟨e', List.mem_cons_of_mem _ he', hMentions⟩

theorem mentions_of_readFormalList? {es : List Expr} {formals : Formals}
    (h : readFormalList? es = some formals) :
    ∀ name ∈ formals.names, ∃ e ∈ es, e.Mentions name :=
  mentions_of_readNames? (Option.filter_eq_some_iff.1 h).1

theorem mentions_of_readFormals? {x : Expr} {formals : Formals}
    (h : readFormals? x = some formals) : ∀ name ∈ formals.names, x.Mentions name := by
  intro name hName
  cases x with
  | number l n => cases h
  | list l es =>
      obtain ⟨e, he, hMentions⟩ := mentions_of_readFormalList? h name hName
      exact .list he hMentions
  | symbol l other =>
      obtain ⟨rest, hRest, rfl⟩ := Option.map_eq_some_iff.1 h
      obtain rfl : name = rest := by simpa [Formals.names] using hName
      exact mentions_of_bindable? hRest

/-! ## Reading operands -/

/-- What the operands of a keyword are read as, one case for each way to write a special form. -/
inductive Reads : Keyword → List Expr → Form → Prop where
  | define {target value : Expr} {name : String} (hName : bindable? target = some name) :
      Reads .define [target, value] (.define name value)
  | procedure {l : Option Location} {target e : Expr} {es params : List Expr} {name : String}
      {formals : Formals} (hName : bindable? target = some name)
      (hFormals : readFormalList? params = some formals) :
      Reads .define (.list l (target :: params) :: e :: es) (.procedure name ⟨formals, e :: es⟩)
  | lambda {params e : Expr} {es : List Expr} {formals : Formals}
      (hFormals : readFormals? params = some formals) :
      Reads .lambda (params :: e :: es) (.lambda ⟨formals, e :: es⟩)
  | branch {test consequent alternative : Expr} :
      Reads .ifThenElse [test, consequent, alternative] (.branch test consequent alternative)
  | sequence {e : Expr} {es : List Expr} : Reads .begin (e :: es) (.sequence (e :: es))
  | conjunction {es : List Expr} : Reads .and es (.conjunction es)
  | disjunction {es : List Expr} : Reads .or es (.disjunction es)
  | bind {l : Option Location} {bindings es : List Expr} {e : Expr} :
      Reads .letIn (.list l bindings :: e :: es) (.bind bindings (e :: es))
  | set {target value : Expr} {name : String} (hName : bindable? target = some name) :
      Reads .set [target, value] (.set name value)
  | delete {target : Expr} {name : String} (hName : bindable? target = some name) :
      Reads .del [target] (.delete name)
  | pair {car cdr : Expr} : Reads .cons [car, cdr] (.pair car cdr)
  | list {es : List Expr} : Reads .list es (.list es)

theorem reads_of_readDefine? {operands : List Expr} {form : Form}
    (h : readDefine? operands = some form) : Reads .define operands form := by
  unfold readDefine? at h
  split at h
  · obtain ⟨name, hName, rfl⟩ := Option.map_eq_some_iff.1 h
    exact .define hName
  · obtain ⟨name, hName, hCode⟩ := Option.bind_eq_some_iff.1 h
    obtain ⟨formals, hFormals, rfl⟩ := Option.map_eq_some_iff.1 hCode
    exact .procedure hName hFormals
  · cases h

/-- The one place where the cases of reading are gone through. -/
theorem reads_of_read? {keyword : Keyword} {operands : List Expr} {form : Form}
    (h : read? keyword operands = some form) : Reads keyword operands form := by
  unfold read? at h
  split at h
  · exact reads_of_readDefine? h
  · obtain ⟨formals, hFormals, rfl⟩ := Option.map_eq_some_iff.1 h
    exact .lambda hFormals
  · cases h
    exact .branch
  · cases h
    exact .sequence
  · cases h
    exact .conjunction
  · cases h
    exact .disjunction
  · cases h
    exact .bind
  · obtain ⟨name, hName, rfl⟩ := Option.map_eq_some_iff.1 h
    exact .set hName
  · obtain ⟨name, hName, rfl⟩ := Option.map_eq_some_iff.1 h
    exact .delete hName
  · cases h
    exact .pair
  · cases h
    exact .list
  · cases h

/-! ## Parts -/

/-- The parts of a form come from the operands. -/
def Within (operands : List Expr) : Form → Prop
  | .define _ value => value ∈ operands
  | .procedure _ code => code.WellFormed ∧ ∀ e ∈ code.body, e ∈ operands
  | .lambda code => code.WellFormed ∧ ∀ e ∈ code.body, e ∈ operands
  | .branch test consequent alternative =>
      test ∈ operands ∧ consequent ∈ operands ∧ alternative ∈ operands
  | .sequence body => body ≠ [] ∧ ∀ e ∈ body, e ∈ operands
  | .conjunction es => ∀ e ∈ es, e ∈ operands
  | .disjunction es => ∀ e ∈ es, e ∈ operands
  | .bind bindings body =>
      (∃ l, .list l bindings ∈ operands) ∧ body ≠ [] ∧ ∀ e ∈ body, e ∈ operands
  | .set _ value => value ∈ operands
  | .delete _ => True
  | .pair car cdr => car ∈ operands ∧ cdr ∈ operands
  | .list es => ∀ e ∈ es, e ∈ operands

/-- What was read from operands is made of these operands. -/
theorem Reads.within {keyword : Keyword} {operands : List Expr} {form : Form}
    (h : Reads keyword operands form) : form.Within operands := by
  cases h with
  | procedure _ hFormals =>
      exact ⟨wellFormed_of_readFormalList? hFormals _ _, fun e he => List.mem_cons_of_mem _ he⟩
  | lambda hFormals =>
      exact ⟨wellFormed_of_readFormals? hFormals _ _, fun e he => List.mem_cons_of_mem _ he⟩
  | @bind l => exact ⟨⟨l, by simp⟩, by simp, fun e he => List.mem_cons_of_mem _ he⟩
  | _ => simp [Within]

/-! ## Names that are bound -/

/-- The name occurs in the operands, and can be bound. -/
def Introduced (operands : List Expr) (name : String) : Prop :=
  isBindable name = true ∧ ∃ e ∈ operands, e.Mentions name

/-- The names that a form binds, and those of the parameters of the procedure it makes, occur in the
operands. Those of a `let` are in its bindings. -/
def Introduces (operands : List Expr) : Form → Prop
  | .define name _ => Introduced operands name
  | .procedure name code =>
      Introduced operands name ∧ ∀ name ∈ code.formals.names, ∃ e ∈ operands, e.Mentions name
  | .lambda code => ∀ name ∈ code.formals.names, ∃ e ∈ operands, e.Mentions name
  | _ => True

/-- What was read from operands binds names that occur in them. -/
theorem Reads.introduces {keyword : Keyword} {operands : List Expr} {form : Form}
    (h : Reads keyword operands form) : form.Introduces operands := by
  cases h with
  | define hName =>
      exact ⟨isBindable_of_bindable? hName, _, List.mem_cons_self, mentions_of_bindable? hName⟩
  | procedure hName hFormals =>
      refine ⟨⟨isBindable_of_bindable? hName, _, List.mem_cons_self,
        .list List.mem_cons_self (mentions_of_bindable? hName)⟩, fun name' hName' => ?_⟩
      obtain ⟨e, he, hMentions⟩ := mentions_of_readFormalList? hFormals name' hName'
      exact ⟨_, List.mem_cons_self, .list (List.mem_cons_of_mem _ he) hMentions⟩
  | lambda hFormals =>
      exact fun name hName => ⟨_, List.mem_cons_self, mentions_of_readFormals? hFormals name hName⟩
  | _ => trivial

/-- The name of a binding occurs in it, and can be bound. -/
theorem introduced_of_binding? {e value : Expr} {name : String}
    (h : binding? e = some (name, value)) : isBindable name = true ∧ e.Mentions name := by
  unfold binding? at h
  split at h
  · obtain ⟨name', hName, hEq⟩ := Option.map_eq_some_iff.1 h
    cases hEq
    exact ⟨isBindable_of_bindable? hName, .list List.mem_cons_self (mentions_of_bindable? hName)⟩
  · cases h

/-- The value of a binding is an element of the binding. -/
theorem mem_of_binding? {e value : Expr} {name : String} (h : binding? e = some (name, value)) :
    ∃ l es, e = .list l es ∧ value ∈ es := by
  unfold binding? at h
  split at h
  · next l key value' =>
      obtain ⟨name', _, hEq⟩ := Option.map_eq_some_iff.1 h
      cases hEq
      exact ⟨l, [key, value], rfl, by simp⟩
  · cases h

end Form

end MiniScheme
