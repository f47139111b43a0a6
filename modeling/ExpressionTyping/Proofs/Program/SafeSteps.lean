import ExpressionTyping.Proofs.Program.WellFormed

/-!
# Steps that do not fail

`Safe` compares a step with look-ups that fail to the step with defaults. From a state with an
invariant the first does what the second does, so it does not fail; the state it ends in has the
invariant and is reached from the first in the allowed way; and a condition holds of the result and
of that state. What is allowed is a `Discipline`. For building a program the invariant is
well-formedness, and all a step may do is to add (`Discipline.building`).
-/

set_option autoImplicit false

namespace ExpressionTyping

/-- What holds of every state, and how states may follow each other. -/
structure Discipline (σ : Type) where
  /-- What holds of every state. -/
  inv : σ → Prop
  /-- Whether a state may be followed by another. -/
  rel : σ → σ → Prop
  refl : ∀ s, rel s s
  trans : ∀ {s s' s''}, rel s s' → rel s' s'' → rel s s''

section Safe

variable {σ α β : Type} {d : Discipline σ}

/-- A step that may fail does what a step with defaults does, and stays in the discipline. -/
def Safe (d : Discipline σ) (q : Guarded σ α) (p : StateM σ α) (s : σ) (Q : α → σ → Prop) : Prop :=
  d.inv s → q.run s = some (p.run s) ∧ d.inv (p.run s).2 ∧ d.rel s (p.run s).2 ∧
    Q (p.run s).1 (p.run s).2

namespace Safe

variable {q : Guarded σ α} {p : StateM σ α} {s : σ} {P Q : α → σ → Prop}

/-- Doing nothing is safe, and what holds goes on to hold. -/
theorem pure {a : α} (h : Q a s) : Safe d (Pure.pure a) (Pure.pure a) s Q :=
  fun hinv => ⟨rfl, hinv, d.refl s, h⟩

/-- Safe steps in a row are safe, and the second may rely on what the first establishes. -/
theorem bind {f : α → Guarded σ β} {g : α → StateM σ β} {R : β → σ → Prop} (h : Safe d q p s P)
    (hnext : ∀ a s', d.rel s s' → P a s' → Safe d (f a) (g a) s' R) :
    Safe d (q >>= f) (p >>= g) s R := by
  intro hinv
  obtain ⟨hrun, hinv', hrel, hP⟩ := h hinv
  obtain ⟨hrun', hinv'', hrel', hR⟩ := hnext _ _ hrel hP hinv'
  refine ⟨?_, hinv'', d.trans hrel hrel', hR⟩
  rw [StateT.run_bind, hrun]
  exact hrun'

/-- What a safe step establishes may be weakened, knowing that the discipline was kept. -/
theorem mono (h : Safe d q p s P) (himp : ∀ a s', d.rel s s' → P a s' → Q a s') :
    Safe d q p s Q := by
  intro hinv
  obtain ⟨hrun, hinv', hrel, hP⟩ := h hinv
  exact ⟨hrun, hinv', hrel, himp _ _ hrel hP⟩

/-- The invariant may be used to show that a step is safe. -/
theorem of_inv (h : d.inv s → Safe d q p s Q) : Safe d q p s Q :=
  fun hinv => h hinv hinv

/-- A step without look-ups is safe when it keeps the discipline. -/
theorem step (h : d.inv s → d.inv (p.run s).2 ∧ d.rel s (p.run s).2 ∧ Q (p.run s).1 (p.run s).2) :
    Safe d (Guarded.step p) p s Q :=
  fun hinv => ⟨rfl, h hinv⟩

/-- Looking at the state is safe. -/
theorem get : Safe d MonadState.get MonadState.get s fun a s' => a = s ∧ s' = s :=
  fun hinv => ⟨rfl, hinv, d.refl s, rfl, rfl⟩

/-- A look-up finds something. -/
theorem found {γ : Type} {o : Option γ} {c : γ} {f : γ → Guarded σ α} (ho : o = some c)
    (h : Safe d (f c) p s Q) : Safe d (liftM o >>= f) p s Q := by
  subst ho
  exact h

/-- What was looked up is the result. -/
theorem gives {o : Option α} {a : α} (ho : o = some a) (h : Q a s) :
    Safe d (liftM o) (Pure.pure a) s Q := by
  subst ho
  exact pure h

/-- The step that may fail looks at the state on its own. -/
theorem peek {f : σ → Guarded σ α} (h : Safe d (f s) p s Q) :
    Safe d (MonadState.get >>= f) p s Q :=
  h

/-- A choice is safe when each branch is under its condition. -/
theorem ite {c : Prop} [Decidable c] {q' : Guarded σ α} {p' : StateM σ α}
    (h : c → Safe d q p s Q) (h' : ¬c → Safe d q' p' s Q) :
    Safe d (if c then q else q') (if c then p else p') s Q := by
  split
  · exact h ‹_›
  · exact h' ‹_›

/-- A loop is safe if its rounds are; what a round brings about, later rounds keep. -/
theorem forM {γ : Type} {f : γ → Guarded σ PUnit} {g : γ → StateM σ PUnit} (xs : List γ)
    {P : σ → Prop} {R : γ → σ → Prop} (hP : ∀ s s', d.rel s s' → P s → P s')
    (hR : ∀ x s s', d.rel s s' → R x s → R x s') (hs : P s)
    (h : ∀ x ∈ xs, ∀ s, P s → Safe d (f x) (g x) s fun _ s' => R x s') :
    Safe d (xs.forM f) (xs.forM g) s fun _ s' => P s' ∧ ∀ x ∈ xs, R x s' := by
  induction xs generalizing s with
  | nil => exact pure ⟨hs, nofun⟩
  | cons x rest ih =>
    refine (h x List.mem_cons_self s hs).bind fun _ s' hrel hx => ?_
    refine (ih (hP s s' hrel hs) fun y hy => h y (List.mem_cons_of_mem x hy)).mono ?_
    rintro _ s'' hrel' ⟨hs'', hrest⟩
    exact ⟨hs'', List.forall_mem_cons.mpr ⟨hR x s' s'' hrel' hx, hrest⟩⟩

end Safe

end Safe

/-! ## Building a program -/

/-- One program is reached from another by building on it; if the files are fixed, nothing is noted
down for them. -/
structure Program.Builds (fixed : Prop) (before after : Program) : Prop extends
    Keeps before after where
  filesFixed : fixed → after.files = before.files := by exact fun _ => rfl

/-- Building nothing leads to the same program. -/
theorem Program.Builds.refl {fixed : Prop} (program : Program) : program.Builds fixed program :=
  ⟨.refl program, fun _ => rfl⟩

/-- Building twice is building. -/
theorem Program.Builds.trans {fixed : Prop} {before after later : Program}
    (h : before.Builds fixed after) (h' : after.Builds fixed later) : before.Builds fixed later :=
  { h.toKeeps.trans h'.toKeeps with
    filesFixed := fun hfixed => (h'.filesFixed hfixed).trans (h.filesFixed hfixed) }

/-- A program is well-formed, and building adds to it. -/
def Discipline.building (fixed : Prop) : Discipline Program where
  inv := Program.WellFormed
  rel := Program.Builds fixed
  refl := .refl
  trans := .trans

namespace Guarded

variable {fixed : Prop} {s : Program}

/-- A step on the types gives a type that is there, or adds one that refers to what is there. -/
theorem onTypes_safe {f : TypeTable → TypeId × TypeTable}
    (h : s.WellFormed → (∃ id, f s.types = (id, s.types) ∧ s.HasType id) ∨
      ∃ data, f s.types = s.types.add data ∧ data.Within s.types.entries.size s.symbols.size) :
    Safe (.building fixed) (step (Compile.onTypes f)) (Compile.onTypes f) s
      fun id s' => s'.HasType id := by
  refine .step fun hs => ?_
  have hrun : (Compile.onTypes f).run s = ((f s.types).1, { s with types := (f s.types).2 }) := rfl
  rw [hrun]
  rcases h hs with ⟨id, heq, hid⟩ | ⟨data, heq, hdata⟩
  · rw [heq]
    exact ⟨hs, .refl s, hid⟩
  · rw [heq]
    have hkeeps : s.Builds fixed { s with types := (s.types.add data).2 } :=
      { Program.Keeps.refl s with
        types := by simp [TypeTable.add]
        filesFixed := fun _ => rfl }
    refine ⟨hs.addsTypes hkeeps.toExtends fun other hother => ?_, hkeeps, ?_⟩
    · rcases Array.mem_push.mp hother with hold | rfl
      · exact .inl hold
      · exact .inr (hdata.mono hkeeps.types (Nat.le_refl _))
    · show s.types.entries.size < (s.types.entries.push data).size
      rw [Array.size_push]
      exact Nat.lt_succ_self _

/-- Adding a type that refers to what is there is safe. -/
theorem addType_safe (data : TypeData)
    (h : data.Within s.types.entries.size s.symbols.size) :
    Safe (.building fixed) (step (Compile.addType data)) (Compile.addType data) s
      fun id s' => s'.HasType id :=
  onTypes_safe fun _ => .inr ⟨data, rfl, h⟩

/-- Sharing a type finds it where it stands, or adds one that refers to what is there. -/
theorem share_cases_within {data : TypeData}
    (h : data.Within s.types.entries.size s.symbols.size) :
    (∃ id, s.types.share data = (id, s.types) ∧ s.HasType id) ∨
      ∃ new, s.types.share data = s.types.add new ∧
        new.Within s.types.entries.size s.symbols.size := by
  rcases TypeTable.share_cases s.types data with ⟨i, hi, heq⟩ | ⟨-, heq⟩
  · exact .inl ⟨⟨i⟩, heq, (Array.getElem?_eq_some_iff.mp hi).1⟩
  · exact .inr ⟨data, heq, h⟩

/-- Sharing a type that refers to what is there is safe. -/
theorem shareType_safe (data : TypeData)
    (h : data.Within s.types.entries.size s.symbols.size) :
    Safe (.building fixed) (step (Compile.shareType data)) (Compile.shareType data) s
      fun id s' => s'.HasType id :=
  onTypes_safe fun _ => share_cases_within h

/-- Joining types that are there is safe. -/
theorem unionOf_safe {ids : List TypeId} (h : ∀ id ∈ ids, s.HasType id) :
    Safe (.building fixed) (unionOf ids) (Compile.unionOf ids) s fun id s' => s'.HasType id := by
  refine .peek (.found (TypeTable.getAll?_eq h) (onTypes_safe fun hs => ?_))
  have hmembers : ∀ member ∈ (ids.flatMap s.types.constituents).eraseDups, s.HasType member := by
    intro member hmember
    obtain ⟨id, hid, hmem⟩ := List.mem_flatMap.mp (List.mem_eraseDups.mp hmember)
    exact hs.constituents (h id hid) member hmem
  unfold TypeTable.unionOf
  generalize (ids.flatMap s.types.constituents).eraseDups = members at hmembers
  by_cases hany : members.contains .any = true
  · simp only [if_pos hany]
    exact .inl ⟨_, rfl, hs.hasType_any⟩
  · simp only [if_neg hany]
    match members with
    | [] => exact .inl ⟨_, rfl, hs.hasType_word .never⟩
    | [id] => exact .inl ⟨id, rfl, hmembers id List.mem_cons_self⟩
    | first :: second :: rest => exact share_cases_within hmembers

/-- A new symbol stands at a place of its own. -/
theorem addSymbol_safe (name : String) (sort : SymbolSort) {type : TypeId} (h : s.HasType type) :
    Safe (.building fixed) (step (Compile.addSymbol name sort type))
      (Compile.addSymbol name sort type) s
      fun id s' => s'.symbol? id = some ⟨name, sort, [], type⟩ := by
  refine .step fun hs => ?_
  show Program.WellFormed { s with symbols := s.symbols.push ⟨name, sort, [], type⟩ } ∧ _
  have hkeeps : s.Builds fixed { s with symbols := s.symbols.push ⟨name, sort, [], type⟩ } :=
    { Program.Keeps.refl s with
      symbols := .push Symbol.Grows.refl _ _
      symbolTypes := .push Symbol.KeepsType.refl _ _
      filesFixed := fun _ => rfl }
  refine ⟨hs.addsSymbols hkeeps.toExtends fun symbol hsymbol => ?_, hkeeps, ?_⟩
  · rcases Array.mem_push.mp hsymbol with hold | rfl
    · exact .inl ⟨symbol, hold, rfl⟩
    · exact .inr h
  · show (s.symbols.push ⟨name, sort, [], type⟩)[s.symbols.size]? = _
    rw [Array.getElem?_push, if_pos rfl]

/-- Changing a symbol keeps a program well-formed if its new type is there. -/
theorem updateSymbol_wellFormed (hs : s.WellFormed) (id : SymbolId) {f : Symbol → Symbol}
    (hf : ∀ symbol : Symbol, symbol.Grows (f symbol))
    (htype : ∀ symbol, (f symbol).type = symbol.type ∨ s.HasType (f symbol).type) :
    Program.WellFormed { s with symbols := s.symbols.modify id.index f } ∧
      s.Extends { s with symbols := s.symbols.modify id.index f } := by
  have hext : s.Extends { s with symbols := s.symbols.modify id.index f } :=
    { Program.Extends.refl s with symbols := .modify Symbol.Grows.refl _ _ hf }
  refine ⟨hs.addsSymbols hext fun symbol hsymbol => ?_, hext⟩
  rcases mem_modify_cases hsymbol with hold | ⟨old, hold, rfl⟩
  · exact .inl ⟨symbol, hold, rfl⟩
  · rcases htype old with heq | hnew
    · exact .inl ⟨old, Array.mem_of_getElem? hold, heq⟩
    · exact .inr hnew

/-- A symbol that is there gets one more place where it is declared. -/
theorem addLocation_safe {id : SymbolId} (h : s.HasSymbol id) (location : Location) :
    Safe (.building fixed) (addLocation id location) (Compile.addLocation id location) s
      fun _ s' => ∃ symbol, s'.symbol? id = some symbol ∧ symbol.declarations ≠ [] := by
  refine .peek (.found h.symbol? (.step fun hs => ?_))
  have hf : ∀ symbol : Symbol,
      symbol.Grows { symbol with declarations := symbol.declarations ++ [location] } :=
    fun symbol => ⟨rfl, rfl, List.prefix_append _ _⟩
  obtain ⟨hwell, hext⟩ := updateSymbol_wellFormed hs id hf fun _ => .inl rfl
  refine ⟨hwell, ⟨⟨hext, .modify Symbol.KeepsType.refl _ _ fun _ => rfl⟩, fun _ => rfl⟩, ?_⟩
  refine ⟨{ s.symbol id with declarations := (s.symbol id).declarations ++ [location] }, ?_,
    by simp⟩
  have hsymbol : s.symbols[id.index]? = some (s.symbol id) := h.symbol?
  show (s.symbols.modify id.index _)[id.index]? = _
  rw [Array.getElem?_modify, if_pos rfl, hsymbol]
  rfl

/-- A scope that is there is changed so that it still fits in. -/
theorem updateScope_safe {id : ScopeId} (h : s.HasScope id) {f : Scope → Scope}
    (hf : ∀ scope : Scope, scope.Grows (f scope))
    (hfits : ∀ scope : Scope, scope.Fits s → (f scope).Fits s) :
    Safe (.building fixed) (updateScope id f) (Compile.updateScope id f) s fun _ _ => True := by
  refine .peek (.found h.scope? (.step fun hs => ?_))
  show Program.WellFormed { s with scopes := s.scopes.modify id.index f } ∧ _
  have hkeeps : s.Builds fixed { s with scopes := s.scopes.modify id.index f } :=
    { Program.Keeps.refl s with
      scopes := .modify Scope.Grows.refl _ _ hf
      filesFixed := fun _ => rfl }
  have hsize : (s.scopes.modify id.index f).size = s.scopes.size := Array.size_modify
  refine ⟨hs.adds ⟨hkeeps.toExtends, fun _ => .inl,
    fun symbol hsymbol => .inl ⟨symbol, hsymbol, rfl⟩, ?_, fun info hinfo => .inl hinfo, ?_⟩,
    hkeeps, trivial⟩
  · intro scope hscope
    rcases mem_modify_cases hscope with hold | ⟨old, hold, rfl⟩
    · exact .inl hold
    · exact .inr ((hfits old (hs.scopes old (Array.mem_of_getElem? hold))).mono hkeeps.toExtends)
  · intro id' hid'
    left
    show id'.index < s.scopes.size
    rw [← hsize]
    exact hid'

/-- A file that is there is changed so that it still fits in. -/
theorem updateFile_safe {id : FileId} (h : s.HasFile id) {f : FileInfo → FileInfo}
    (hf : ∀ info : FileInfo, info.Grows (f info))
    (hfits : ∀ info : FileInfo, info.Fits s → (f info).Fits s) :
    Safe (.building False) (updateFile id f) (Compile.updateFile id f) s fun _ _ => True := by
  obtain ⟨info, hinfo⟩ := h.file?
  refine .peek (.found hinfo (.step fun hs => ?_))
  show Program.WellFormed { s with files := s.files.modify id.index f } ∧ _
  have hkeeps : s.Builds False { s with files := s.files.modify id.index f } :=
    { Program.Keeps.refl s with
      files := .modify FileInfo.Grows.refl _ _ hf
      filesFixed := nofun }
  refine ⟨hs.addsFiles hkeeps.toExtends fun info hinfo => ?_, hkeeps, trivial⟩
  rcases mem_modify_cases hinfo with hold | ⟨old, hold, rfl⟩
  · exact .inl hold
  · exact .inr ((hfits old (hs.files old (Array.mem_of_getElem? hold))).mono hkeeps.toExtends)

/-- A problem is reported in a file that is there, over bounds that are in order. -/
theorem report_safe {file : FileId} (h : s.HasFile file) {span : Span} {length : Nat}
    (hspan : span.Within length) (problem : Problem) :
    Safe (.building fixed) (report file span problem) (Compile.report file span problem) s
      fun _ _ => True := by
  obtain ⟨info, hinfo⟩ := h.file?
  refine .peek (.found hinfo (.found (Span.ofBounds?_of_within hspan) (.step fun hs => ?_)))
  have hkeeps : s.Builds fixed ((Compile.report file span problem).run s).2 :=
    { Program.Keeps.refl s with filesFixed := fun _ => rfl }
  exact ⟨hs.adds ⟨hkeeps.toExtends, fun _ => .inl,
    fun symbol hsymbol => .inl ⟨symbol, hsymbol, rfl⟩, fun _ => .inl, fun _ => .inl, fun _ => .inl⟩,
    hkeeps, trivial⟩

/-- Adding a file is safe, and the file is empty then. -/
theorem addFile_safe (name : String) (length : Nat) :
    Safe (.building False) (step (Compile.addFile name length)) (Compile.addFile name length) s
      fun id s' => s'.file? id = some ⟨name, length, [], []⟩ := by
  refine .step fun hs => ?_
  show Program.WellFormed { s with files := s.files.push ⟨name, length, [], []⟩ } ∧ _
  have hkeeps : s.Builds False { s with files := s.files.push ⟨name, length, [], []⟩ } :=
    { Program.Keeps.refl s with
      files := .push FileInfo.Grows.refl _ _
      filesFixed := nofun }
  refine ⟨hs.addsFiles hkeeps.toExtends fun info hinfo => ?_, hkeeps, ?_⟩
  · rcases Array.mem_push.mp hinfo with hold | rfl
    · exact .inl hold
    · exact .inr ⟨nofun, nofun⟩
  · show (s.files.push ⟨name, length, [], []⟩)[s.files.size]? = _
    rw [Array.getElem?_push, if_pos rfl]

/-- A new scope of a file stands inside scopes of that file. -/
theorem addScope_safe {file : FileId} {info : FileInfo} (hfile : s.file? file = some info)
    {enclosing : List ScopeId} (henclosing : enclosing ⊆ info.scopes)
    (hchain : ∀ parent rest, enclosing = parent :: rest →
      ∃ outer, s.scope? parent = some outer ∧ outer.enclosing = rest)
    {span : Span} (hspan : span.start ≤ span.stop) :
    Safe (.building False) (step (Compile.addScope file enclosing span))
      (Compile.addScope file enclosing span) s fun id s' =>
        (∃ info, s'.file? file = some info ∧ id ∈ info.scopes) ∧
          ∃ scope, s'.scope? id = some scope ∧ scope.enclosing = enclosing := by
  refine .step fun hs => ?_
  let id : ScopeId := ⟨s.scopes.size⟩
  let after : Program :=
    { s with
      scopes := s.scopes.push ⟨enclosing, span, .empty, .empty, []⟩
      files := s.files.modify file.index fun info => { info with scopes := info.scopes ++ [id] } }
  show after.WellFormed ∧ s.Builds False after ∧
    (∃ info, after.file? file = some info ∧ id ∈ info.scopes) ∧ _
  have hkeeps : s.Builds False after :=
    { Program.Keeps.refl s with
      scopes := .push Scope.Grows.refl _ _
      files := .modify FileInfo.Grows.refl _ _ fun info => ⟨List.subset_append_left _ _⟩
      filesFixed := nofun }
  have hid : after.scope? id = some ⟨enclosing, span, .empty, .empty, []⟩ := by
    show (s.scopes.push _)[s.scopes.size]? = _
    rw [Array.getElem?_push, if_pos rfl]
  have hinfo : after.file? file = some { info with scopes := info.scopes ++ [id] } := by
    show (s.files.modify file.index _)[file.index]? = _
    rw [Array.getElem?_modify, if_pos rfl]
    exact congrArg (Option.map _) hfile
  have hlast : id ∈ info.scopes ++ [id] := List.mem_append_right _ List.mem_cons_self
  refine ⟨hs.adds ⟨hkeeps.toExtends, fun _ => .inl,
    fun symbol hsymbol => .inl ⟨symbol, hsymbol, rfl⟩, ?_, ?_, ?_⟩, hkeeps,
    ⟨_, hinfo, hlast⟩, ⟨_, hid, rfl⟩⟩
  · intro scope hscope
    rcases Array.mem_push.mp hscope with hold | rfl
    · exact .inl hold
    · refine .inr ⟨nofun, nofun, nofun, hspan, fun parent rest heq => ?_⟩
      obtain ⟨outer, houter, hrest⟩ := hchain parent rest heq
      obtain ⟨later, hlater, hsame⟩ := hkeeps.scopes _ _ houter
      exact ⟨later, hlater, hsame.enclosing.trans hrest⟩
  · intro info' hinfo'
    have hmodified : info' ∈ s.files.modify file.index
        fun info => { info with scopes := info.scopes ++ [id] } := hinfo'
    rcases mem_modify_cases hmodified with hold | ⟨old, hold, rfl⟩
    · exact .inl hold
    · obtain rfl : info = old := Option.some.inj (hfile.symm.trans hold)
      have hbefore := hs.files info (Array.mem_of_getElem? hold)
      refine .inr ((hbefore.mono hkeeps.toExtends).addScope hid henclosing fun outer hout => ?_)
      -- the scopes around the new one were there before
      obtain ⟨scope, hscope, -⟩ := hbefore.scopes outer (henclosing hout)
      exact (Program.HasScope.of_scope? hscope).1
  · intro id' hid'
    have hlt : id'.index < s.scopes.size + 1 := Array.size_push _ ▸ hid'
    rcases Nat.lt_succ_iff_lt_or_eq.mp hlt with hold | hnew
    · exact .inl hold
    · have heq : id' = id := congrArg ScopeId.mk hnew
      refine .inr ⟨_, Array.mem_of_getElem? hinfo, ?_⟩
      rw [heq]
      exact hlast

/-- An object type is changed so that its members and the types in its signatures are there. -/
theorem updateObject_wellFormed (hs : s.WellFormed) (id : TypeId)
    {f : SymbolTable SymbolId → List Signature → SymbolTable SymbolId × List Signature}
    (hmembers : ∀ members signatures, (∀ entry ∈ members.entries, s.HasSymbol entry.2) →
      ∀ entry ∈ (f members signatures).1.entries, s.HasSymbol entry.2)
    (hsignatures : ∀ members signatures,
      (∀ signature ∈ signatures, signature.Within s.types.entries.size) →
      ∀ signature ∈ (f members signatures).2, signature.Within s.types.entries.size) :
    Program.WellFormed { s with types := s.types.updateObject id f } ∧
      s.Keeps { s with types := s.types.updateObject id f } := by
  have hsize : (s.types.updateObject id f).entries.size = s.types.entries.size :=
    Array.size_modify
  have hkeeps : s.Keeps { s with types := s.types.updateObject id f } :=
    { Program.Keeps.refl s with types := Nat.le_of_eq hsize.symm }
  refine ⟨hs.addsTypes hkeeps.toExtends fun data hdata => ?_, hkeeps⟩
  simp only [TypeTable.updateObject] at hdata
  rcases mem_modify_cases hdata with hold | ⟨old, hold, rfl⟩
  · exact .inl hold
  · have hwithin := hs.types old (Array.mem_of_getElem? hold)
    refine .inr (TypeData.Within.mono ?_ hkeeps.types (Nat.le_refl _))
    cases old with
    | object name? members signatures =>
      exact ⟨hmembers members signatures hwithin.1, hsignatures members signatures hwithin.2⟩
    | _ => exact hwithin

/-- An object type gets members that are there. -/
theorem setMembers_wellFormed (hs : s.WellFormed) (id : TypeId) {members : SymbolTable SymbolId}
    (h : ∀ entry ∈ members.entries, s.HasSymbol entry.2) :
    Program.WellFormed { s with types := s.types.setMembers id members } ∧
      s.Keeps { s with types := s.types.setMembers id members } :=
  updateObject_wellFormed hs id (fun _ _ _ => h) fun _ _ hsignatures => hsignatures

/-- An object type gets one more signature, of types that are there. -/
theorem addSignature_wellFormed (hs : s.WellFormed) (id : TypeId) {signature : Signature}
    (h : signature.Within s.types.entries.size) :
    Program.WellFormed { s with types := s.types.addSignature id signature } ∧
      s.Keeps { s with types := s.types.addSignature id signature } :=
  updateObject_wellFormed hs id (fun _ _ hmembers => hmembers) fun _ _ hsignatures =>
    List.forall_mem_append.mpr ⟨hsignatures, List.forall_mem_singleton.mpr h⟩

/-- Adding a signature of types that are there is safe. -/
theorem addSignature_safe (id : TypeId) {signature : Signature}
    (h : signature.Within s.types.entries.size) :
    Safe (.building fixed) (step (Compile.addSignature id signature))
      (Compile.addSignature id signature) s fun _ _ => True := by
  refine .step fun hs => ?_
  obtain ⟨hwell, hkeeps⟩ := addSignature_wellFormed hs id h
  exact ⟨hwell, { hkeeps with }, trivial⟩

end Guarded

end ExpressionTyping
