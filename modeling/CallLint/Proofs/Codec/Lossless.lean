import CallLint.Proofs.Codec.Fields
import CallLint.Proofs.Text.Blank
import CallLint.Proofs.Traversal

/-!
# Written forms are lossless

Whatever has been read from a document is read back from its written form: spans and types,
expressions of any depth, units, plans, findings, descriptions of rules, and configurations. A field
that is left out when there is nothing to write has that as its default, and a type is written in
the words that it was read from, without the blanks around them.

* `TypeRef.parse?_name`: a type that has been read from a text is read again from its name.
* `Expr.Legible`: what every node of an expression needs to be read back.
  `Expr.legible_of_decodeWithin` and `Expr.decodeWithin_encode` lead there and back, both by the
  structure of the tree.
* `Expr.normal_of_decode?`: every type in an expression that has been read is in normal words.
* `written_forms_lossless`: all of these.
-/

namespace CallLint

/-! ## Places and types -/

theorem Span.lossless : Lossless Span.decode? Span.encode := by
  intro v span h
  rcases Option.bind_eq_some_iff.1 h with ⟨slots, -, h⟩
  split at h
  · rcases exists_of_required lossless_nat h with ⟨start, hstart, h⟩
    rcases exists_of_required lossless_nat h with ⟨stop, hstop, h⟩
    cases h
    exact read_object (by decide) (.refl _) (read_required hstart (read_required hstop rfl))
  · cases h

theorem Path.lossless : Lossless Path.decode? Path.encode := fun _ _ _ => rfl

theorem Location.lossless : Lossless Location.decode? Location.encode := by
  intro v location h
  rcases Option.bind_eq_some_iff.1 h with ⟨slots, -, h⟩
  split at h
  · rcases exists_of_required Path.lossless h with ⟨file, hfile, h⟩
    rcases exists_of_required lossless_nat h with ⟨line, hline, h⟩
    rcases exists_of_required lossless_nat h with ⟨column, hcolumn, h⟩
    rcases exists_of_required lossless_nat h with ⟨length, hlength, h⟩
    cases h
    exact read_object (by decide) (.refl _) (read_required hfile (read_required hline
      (read_required hcolumn (read_required hlength rfl))))
  · cases h

/-- The name of a primitive type is read as that type. -/
@[simp] theorem TypeRef.parse?_name_primitive (p : Primitive) :
    TypeRef.parse? p.name = some (.primitive p) := by
  cases p <;> decide

/-- A type that has been read from a text is read again from its name. No class has the name of a
primitive type, and no blanks are left around a name. -/
theorem TypeRef.parse?_name {s : String} {t : TypeRef} (h : TypeRef.parse? s = some t) :
    TypeRef.parse? t.name = some t := by
  unfold TypeRef.parse? at h
  dsimp only at h
  split at h
  · -- nothing but blanks names no type
    cases h
  · next hsome =>
    cases hfind : Primitive.all.find? (·.name = Text.trim s) with
    | some p =>
      rw [hfind] at h
      cases h
      exact parse?_name_primitive p
    | none =>
      -- a class keeps the trimmed text, which is no name of a primitive type either
      rw [hfind] at h
      cases h
      rw [parse?, name, Text.trim_trim, if_neg hsome, hfind]

@[simp] theorem TypeRef.decode?_text (s : String) :
    TypeRef.decode? (Json.text s) = TypeRef.parse? s := by
  rw [decode?]
  exact Option.bind_some ..

theorem TypeRef.lossless : Lossless TypeRef.decode? TypeRef.encode := by
  intro v t h
  rw [decode?] at h
  rcases Option.bind_eq_some_iff.1 h with ⟨s, -, hparse⟩
  rw [ReadBack, encode, decode?_text]
  exact parse?_name hparse

theorem MethodRef.lossless : Lossless MethodRef.decode? MethodRef.encode := by
  intro v method h
  rcases Option.bind_eq_some_iff.1 h with ⟨slots, -, h⟩
  split at h
  · rcases exists_of_required TypeRef.lossless h with ⟨owner, howner, h⟩
    rcases exists_of_required lossless_text h with ⟨name, hname, h⟩
    rcases exists_of_withDefault lossless_bool h rfl with ⟨isStatic, hstatic, h⟩
    cases h
    exact read_object (by decide) (.refl _) (read_required howner (read_required hname
      (read_withDefault hstatic rfl)))
  · cases h

/-! ## Expressions -/

namespace Expr

/-- What every node of an expression needs to be read back. -/
inductive Legible : Expr → Prop
  | node {kind : NodeKind} {span : Span} {type : Option TypeRef} {target : Option MethodRef}
      {children : List Expr}
      (hkind : ReadBack NodeKind.decode? NodeKind.encode kind)
      (hspan : ReadBack Span.decode? Span.encode span)
      (htype : ReadBack (Slot.orNull TypeRef.decode?) (.ofOption TypeRef.encode) type)
      (htarget : ReadBack (Slot.orNull MethodRef.decode?) (.ofOption MethodRef.encode) target)
      (hchildren : ∀ child ∈ children, Legible child) : Legible ⟨kind, span, type, target, children⟩

/-- An expression that has been read is legible, however deep it is. -/
theorem legible_of_decodeWithin {levels : Nat} {v : Json} {e : Expr}
    (h : decodeWithin levels v = some e) : Legible e := by
  induction levels generalizing v e with
  | zero => cases h
  | succ levels ih =>
    rcases Option.bind_eq_some_iff.1 h with ⟨slots, -, h⟩
    split at h
    · next kind span type target children =>
      rcases exists_of_required (lossless_caseOf _ _) h with ⟨kind, hkind, h⟩
      rcases exists_of_required Span.lossless h with ⟨span, hspan, h⟩
      obtain ⟨type, htype, h⟩ :=
        exists_of_withDefault (lossless_orNull TypeRef.lossless fun _ => rfl) h rfl
      obtain ⟨target, htarget, h⟩ :=
        exists_of_withDefault (lossless_orNull MethodRef.lossless fun _ => rfl) h rfl
      rcases Option.bind_eq_some_iff.1 h with ⟨own, hown, h⟩
      cases h
      refine .node hkind hspan htype htarget fun child hchild => ?_
      -- the children have been read within one level less
      cases children with
      | given v =>
        rcases Option.bind_eq_some_iff.1 hown with ⟨items, -, hitems⟩
        rcases exists_of_mem_mapM hitems hchild with ⟨item, -, hitem⟩
        exact ih hitem
      | omitted =>
        cases hown
        cases hchild
      | cutOff =>
        cases hown
        cases hchild
    · cases h

@[simp] theorem encodeAll_eq_map (es : List Expr) : encodeAll es = es.map encode := by
  induction es with
  | nil => rfl
  | cons e es ih => rw [encodeAll, ih, List.map_cons]

/-- What is written for the children of a node, if there are any. -/
def childrenIfAny (children : List Expr) : Option Json :=
  if children.isEmpty then none else some (.list (children.map encode))

/-- The written form of a node: two fields that are always there, and those that have something to
say. -/
theorem encode_eq (kind : NodeKind) (span : Span) (type : Option TypeRef)
    (target : Option MethodRef) (children : List Expr) :
    encode ⟨kind, span, type, target, children⟩ =
      .object ([("kind", kind.encode), ("span", span.encode)] ++
        fieldIfAny "type" (type.map TypeRef.encode) ++
        fieldIfAny "target" (target.map MethodRef.encode) ++
        fieldIfAny "children" (childrenIfAny children)) := by
  rw [encode, encodeAll_eq_map, childrenIfAny]
  cases children <;> rfl

variable {kind span : Json} {type target children : Option Json}

/-- No field is there twice. -/
theorem sublist_names_encode :
    (([("kind", kind), ("span", span)] ++ fieldIfAny "type" type ++ fieldIfAny "target" target ++
      fieldIfAny "children" children).map (·.1)).Sublist
      ["kind", "span", "type", "target", "children"] := by
  cases type <;> cases target <;> cases children <;> simp [fieldIfAny]

/-- What a reader finds in the written form of an expression. -/
theorem slots_encode :
    ["kind", "span", "type", "target", "children"].map
        (slotIn ([("kind", kind), ("span", span)] ++ fieldIfAny "type" type ++
          fieldIfAny "target" target ++ fieldIfAny "children" children)) =
      [.given kind, .given span, slotIfAny type, slotIfAny target, slotIfAny children] := by
  cases type <;> cases target <;> cases children <;> rfl

/-- The written form of a child is less deep than that of its parent. -/
theorem depth_encode_lt {kind : NodeKind} {span : Span} {type : Option TypeRef}
    {target : Option MethodRef} {children : List Expr} {child : Expr} (h : child ∈ children) :
    child.encode.depth < (encode ⟨kind, span, type, target, children⟩).depth := by
  have hsome : childrenIfAny children = some (.list (children.map encode)) :=
    if_neg (by simpa using List.ne_nil_of_mem h)
  have hitem : child.encode.depth ≤ Json.depthOfItems (children.map encode) :=
    Json.depth_le_depthOfItems (List.mem_map_of_mem h)
  rw [encode_eq, hsome, Json.depth]
  -- it is an item of the list in one of the fields
  have hmem : ("children", Json.list (children.map encode)) ∈
      [("kind", kind.encode), ("span", span.encode)] ++
        fieldIfAny "type" (type.map TypeRef.encode) ++
        fieldIfAny "target" (target.map MethodRef.encode) ++
        fieldIfAny "children" (some (.list (children.map encode))) := by simp [fieldIfAny]
  have hfield := Json.depth_le_depthOfFields hmem
  rw [Json.depth] at hfield
  omega

/-- A legible expression is read back, if as many levels are looked at as its written form has. -/
theorem decodeWithin_encode {e : Expr} (h : Legible e) {levels : Nat}
    (hdepth : e.encode.depth < levels) : decodeWithin levels e.encode = some e := by
  -- the children are read within one level less, for which they are shallow enough
  induction h generalizing levels with
  | @node kind span type target children hkind hspan htype htarget _ ih =>
    cases levels with
    | zero => exact absurd hdepth (Nat.not_lt_zero _)
    | succ levels =>
      have hchildren :
          ReadBack (listOf? (decodeWithin levels)) (fun l => .list (l.map encode)) children :=
        readBack_listOf fun child hchild =>
          ih child hchild (Nat.lt_of_lt_of_le (depth_encode_lt hchild) (Nat.le_of_lt_succ hdepth))
      rw [encode_eq]
      refine read_object (by decide) sublist_names_encode ?_
      rw [slots_encode]
      refine read_required hkind (read_required hspan (read_orNull htype (read_orNull htarget ?_)))
      unfold childrenIfAny
      cases children with
      | nil => rfl
      | cons child children => exact read_withDefault hchildren rfl

/-- An expression is read within as many levels as its document has. -/
theorem lossless : Lossless decode? encode :=
  fun _ _ h => decodeWithin_encode (legible_of_decodeWithin h) (Nat.lt_succ_self _)

end Expr

theorem SourceUnit.lossless : Lossless SourceUnit.decode? SourceUnit.encode := by
  intro v unit h
  rcases Option.bind_eq_some_iff.1 h with ⟨slots, -, h⟩
  split at h
  · rcases exists_of_withDefault Path.lossless h rfl with ⟨path, hpath, h⟩
    rcases exists_of_withDefault lossless_text h rfl with ⟨source, hsource, h⟩
    rcases exists_of_withDefault lossless_textSet h rfl with ⟨symbols, hsymbols, h⟩
    rcases exists_of_withDefault (lossless_listOf Expr.lossless) h rfl with ⟨trees, htrees, h⟩
    cases h
    exact read_object (by decide) (.refl _) (read_withDefault hpath (read_withDefault hsource
      (read_withDefault hsymbols (read_withDefault htrees rfl))))
  · cases h

/-! ## Plans and findings -/

theorem Edit.lossless : Lossless Edit.decode? Edit.encode := by
  have hplace : Lossless EditPlace.decode? fun place => .text place.word := by
    intro v place h
    rcases Option.bind_eq_some_iff.1 h with ⟨word, -, hfind⟩
    exact find?_word_of_find? hfind
  intro v edit h
  rcases Option.bind_eq_some_iff.1 h with ⟨slots, -, h⟩
  split at h
  · rcases exists_of_required hplace h with ⟨place, hplace, h⟩
    rcases exists_of_required Span.lossless h with ⟨span, hspan, h⟩
    rcases exists_of_required lossless_text h with ⟨text, htext, h⟩
    cases h
    exact read_object (by decide) (.refl _) (read_required hplace (read_required hspan
      (read_required htext rfl)))
  · cases h

theorem FixPlan.lossless : Lossless FixPlan.decode? FixPlan.encode := by
  intro v plan h
  rcases Option.bind_eq_some_iff.1 h with ⟨slots, -, h⟩
  split at h
  · rcases exists_of_withDefault lossless_text h rfl with ⟨description, hdescription, h⟩
    rcases exists_of_required (lossless_listOf Edit.lossless) h with ⟨edits, hedits, h⟩
    rcases exists_of_withDefault lossless_textSet h rfl with ⟨imports, himports, h⟩
    rcases exists_of_withDefault (lossless_caseOf _ _) h rfl with ⟨safety, hsafety, h⟩
    cases h
    exact read_object (by decide) (.refl _) (read_withDefault hdescription (read_required hedits
      (read_withDefault himports (read_withDefault hsafety rfl))))
  · cases h

theorem Diagnostic.lossless : Lossless Diagnostic.decode? Diagnostic.encode := by
  have hfix : Lossless (Slot.orNull FixPlan.decode?) (.ofOption FixPlan.encode) :=
    lossless_orNull FixPlan.lossless fun _ => rfl
  intro v d h
  rcases Option.bind_eq_some_iff.1 h with ⟨slots, -, h⟩
  split at h
  · rcases exists_of_required lossless_text h with ⟨rule, hrule, h⟩
    rcases exists_of_required (lossless_caseOf _ _) h with ⟨severity, hseverity, h⟩
    rcases exists_of_required lossless_text h with ⟨message, hmessage, h⟩
    rcases exists_of_required Span.lossless h with ⟨span, hspan, h⟩
    rcases exists_of_withDefault Location.lossless h rfl with ⟨location, hlocation, h⟩
    rcases exists_of_withDefault lossless_optionalText h rfl with ⟨sourceLine, hline, h⟩
    rcases exists_of_withDefault lossless_optionalText h rfl with ⟨help, hhelp, h⟩
    rcases exists_of_withDefault hfix h rfl with ⟨fix, hfix, h⟩
    rcases exists_of_withDefault lossless_bool h rfl with ⟨review, hreview, h⟩
    rcases exists_of_withDefault lossless_texts h rfl with ⟨notes, hnotes, h⟩
    cases h
    exact read_object (by decide) (.refl _) (read_required hrule (read_required hseverity
      (read_required hmessage (read_required hspan (read_withDefault hlocation
        (read_withDefault hline (read_withDefault hhelp (read_withDefault hfix
          (read_withDefault hreview (read_withDefault hnotes rfl))))))))))
  · cases h

theorem RuleInfo.lossless : Lossless RuleInfo.decode? RuleInfo.encode := by
  intro v info h
  rcases Option.bind_eq_some_iff.1 h with ⟨slots, -, h⟩
  split at h
  · rcases exists_of_required lossless_text h with ⟨id, hid, h⟩
    rcases exists_of_withDefault lossless_optionalText h rfl with ⟨name, hname, h⟩
    rcases exists_of_required lossless_text h with ⟨summary, hsummary, h⟩
    rcases exists_of_withDefault lossless_optionalText h rfl with ⟨explanation, hexplanation, h⟩
    rcases exists_of_withDefault (lossless_caseOf _ _) h rfl with ⟨severity, hseverity, h⟩
    rcases exists_of_withDefault (lossless_caseOf _ _) h rfl with ⟨category, hcategory, h⟩
    rcases exists_of_withDefault (lossless_caseOf _ _) h rfl with ⟨fix, hfix, h⟩
    rcases exists_of_withDefault lossless_optionalText h rfl with ⟨docs, hdocs, h⟩
    rcases exists_of_withDefault lossless_texts h rfl with ⟨tags, htags, h⟩
    rcases exists_of_withDefault lossless_optionalText h rfl with ⟨bad, hbad, h⟩
    rcases exists_of_withDefault lossless_optionalText h rfl with ⟨good, hgood, h⟩
    cases h
    exact read_object (by decide) (.refl _) (read_required hid (read_withDefault hname
      (read_required hsummary (read_withDefault hexplanation (read_withDefault hseverity
        (read_withDefault hcategory (read_withDefault hfix (read_withDefault hdocs
          (read_withDefault htags (read_withDefault hbad (read_withDefault hgood rfl)))))))))))
  · cases h

/-! ## Configurations -/

theorem EngineSettings.lossless : Lossless EngineSettings.decode? EngineSettings.encode := by
  intro v s h
  rcases Option.bind_eq_some_iff.1 h with ⟨slots, -, h⟩
  split at h
  · rcases exists_of_withDefault lossless_bool h rfl with ⟨parallel, hparallel, h⟩
    rcases exists_of_withDefault lossless_nat h rfl with ⟨jobs, hjobs, h⟩
    cases h
    exact read_object (by decide) (.refl _)
      (read_withDefault hparallel (read_withDefault hjobs rfl))
  · cases h

theorem OutputSettings.lossless : Lossless OutputSettings.decode? OutputSettings.encode := by
  intro v s h
  rcases Option.bind_eq_some_iff.1 h with ⟨slots, -, h⟩
  split at h
  · rcases exists_of_withDefault (lossless_caseOf _ _) h rfl with ⟨format, hformat, h⟩
    rcases exists_of_withDefault (lossless_caseOf _ _) h rfl with ⟨color, hcolor, h⟩
    rcases exists_of_withDefault lossless_bool h rfl with ⟨verbose, hverbose, h⟩
    rcases exists_of_withDefault lossless_bool h rfl with ⟨statistics, hstatistics, h⟩
    cases h
    exact read_object (by decide) (.refl _) (read_withDefault hformat (read_withDefault hcolor
      (read_withDefault hverbose (read_withDefault hstatistics rfl))))
  · cases h

theorem RuleSettings.lossless : Lossless RuleSettings.decode? RuleSettings.encode := by
  have hseverities : Lossless (mapOf? Severity.decode?) (encodeMap Severity.encode) :=
    lossless_mapOf (lossless_caseOf _ _)
  intro v s h
  rcases Option.bind_eq_some_iff.1 h with ⟨slots, -, h⟩
  split at h
  · rcases exists_of_withDefault lossless_texts h rfl with ⟨disabled, hdisabled, h⟩
    rcases exists_of_withDefault lossless_texts h rfl with ⟨enabled, henabled, h⟩
    rcases exists_of_withDefault hseverities h rfl with ⟨severity, hseverity, h⟩
    rcases exists_of_withDefault (lossless_mapOf lossless_texts) h rfl with ⟨perFile, hperFile, h⟩
    cases h
    exact read_object (by decide) (.refl _) (read_withDefault hdisabled (read_withDefault henabled
      (read_withDefault hseverity (read_withDefault hperFile rfl))))
  · cases h

/-- Policies are written as the set of their kinds. -/
theorem ParenPolicy.lossless : Lossless ParenPolicy.decode? ParenPolicy.encode := by
  have hkinds := lossless_setOf (lossless_caseOf NodeKind.all NodeKind.word)
  intro v policy h
  rcases Option.map_eq_some_iff.1 h with ⟨kinds, hlist, rfl⟩
  obtain ⟨members, hmembers, hset⟩ :=
    Option.map_eq_some_iff.1 (hkinds v (.ofList kinds) (congrArg (Option.map _) hlist))
  exact Option.map_eq_some_iff.2 ⟨members, hmembers, congrArg ParenPolicy.mk hset⟩

theorem FixSettings.lossless : Lossless FixSettings.decode? FixSettings.encode := by
  intro v s h
  rcases Option.bind_eq_some_iff.1 h with ⟨slots, -, h⟩
  split at h
  · rcases exists_of_withDefault lossless_text h rfl with ⟨helper, hhelper, h⟩
    rcases exists_of_withDefault lossless_text h rfl with ⟨method, hmethod, h⟩
    rcases exists_of_withDefault ParenPolicy.lossless h rfl with ⟨parens, hparens, h⟩
    cases h
    exact read_object (by decide) (.refl _) (read_withDefault hhelper (read_withDefault hmethod
      (read_withDefault hparens rfl)))
  · cases h

theorem Config.lossless : Lossless Config.decode? Config.encode := by
  intro v c h
  rcases Option.bind_eq_some_iff.1 h with ⟨slots, -, h⟩
  split at h
  · rcases exists_of_withDefault lossless_texts h rfl with ⟨bases, hbases, h⟩
    rcases exists_of_withDefault EngineSettings.lossless h rfl with ⟨engine, hengine, h⟩
    rcases exists_of_withDefault OutputSettings.lossless h rfl with ⟨output, houtput, h⟩
    rcases exists_of_withDefault RuleSettings.lossless h rfl with ⟨rules, hrules, h⟩
    rcases exists_of_withDefault FixSettings.lossless h rfl with ⟨fix, hfix, h⟩
    cases h
    exact read_object (by decide) (.refl _) (read_withDefault hbases (read_withDefault hengine
      (read_withDefault houtput (read_withDefault hrules (read_withDefault hfix rfl)))))
  · cases h

/-! ## All of them -/

/-- A type in the words that `TypeRef.parse?` gives it. -/
def TypeRef.Normal (t : TypeRef) : Prop := TypeRef.parse? t.name = some t

/-- A type that is read back is in normal words. -/
theorem TypeRef.normal_of_readBack {t : TypeRef} (h : ReadBack TypeRef.decode? TypeRef.encode t) :
    t.Normal := by
  rw [ReadBack, encode, decode?_text] at h
  exact h

/-- A type that has been read is the one that its text names. -/
theorem TypeRef.name_of_decode? {s : String} {t : TypeRef}
    (h : TypeRef.decode? (Json.text s) = some t) : t.name = Text.trim s := by
  rw [decode?_text, parse?] at h
  split at h
  · cases h
  · cases hfind : Primitive.all.find? (·.name = Text.trim s) with
    | some p =>
      rw [hfind] at h
      cases h
      have hname : p.name = Text.trim s := by simpa using List.find?_some hfind
      exact hname
    | none =>
      rw [hfind] at h
      cases h
      rfl

/-- So is the class of a method that has been read. -/
theorem MethodRef.normal_of_decode? {v : Json} {m : MethodRef} (h : MethodRef.decode? v = some m) :
    m.owner.Normal := by
  rcases Option.bind_eq_some_iff.1 h with ⟨slots, -, h⟩
  split at h
  · rcases exists_of_required TypeRef.lossless h with ⟨owner, howner, h⟩
    rcases Option.bind_eq_some_iff.1 h with ⟨name, -, h⟩
    rcases Option.bind_eq_some_iff.1 h with ⟨isStatic, -, h⟩
    cases h
    exact TypeRef.normal_of_readBack howner
  · cases h

namespace Expr

/-- The types that stand at a node: its own, and the one that owns the method it calls. -/
def ownTypes (e : Expr) : List TypeRef := e.type.toList ++ (e.target.map (·.owner)).toList

/-- All types that stand in an expression. -/
def types (e : Expr) : List TypeRef := e.preorder.flatMap ownTypes

/-- The types at a node are normal if what is written for them is read back. -/
theorem normal_of_mem_ownTypes {type : Option TypeRef} {target : Option MethodRef}
    (htype : ReadBack (Slot.orNull TypeRef.decode?) (.ofOption TypeRef.encode) type)
    (htarget : ReadBack (Slot.orNull MethodRef.decode?) (.ofOption MethodRef.encode) target)
    {t : TypeRef} (ht : t ∈ type.toList ++ (target.map (·.owner)).toList) : t.Normal := by
  rcases List.mem_append.1 ht with ht | ht
  · -- the type of the node
    rw [Option.mem_toList.1 ht] at htype
    rcases Option.map_eq_some_iff.1 htype with ⟨t', hread, heq⟩
    cases heq
    exact TypeRef.normal_of_readBack hread
  · -- the class whose method it calls
    rcases Option.map_eq_some_iff.1 (Option.mem_toList.1 ht) with ⟨m, hm, rfl⟩
    rw [hm] at htarget
    rcases Option.map_eq_some_iff.1 htarget with ⟨m', hread, heq⟩
    cases heq
    exact MethodRef.normal_of_decode? hread

/-- All types of a legible expression are normal, however deep they stand. -/
theorem normal_of_legible {e : Expr} (h : Legible e) : ∀ t ∈ e.types, t.Normal := by
  induction h with
  | @node kind span type target children _ _ htype htarget _ ih =>
    intro t ht
    rw [types, preorder_eq, List.flatMap_cons] at ht
    rcases List.mem_append.1 ht with ht | ht
    · exact normal_of_mem_ownTypes htype htarget ht
    · -- a type further down stands at a node below one of the children
      rw [preorderAll_eq_flatMap] at ht
      rcases List.mem_flatMap.1 ht with ⟨node, hnode, ht⟩
      rcases List.mem_flatMap.1 hnode with ⟨child, hchild, hnode⟩
      exact ih child hchild t (List.mem_flatMap.2 ⟨node, hnode, ht⟩)

/-- So an expression that has been read has normal types only. -/
theorem normal_of_decode? {v : Json} {e : Expr} (h : decode? v = some e) :
    ∀ t ∈ e.types, t.Normal :=
  normal_of_legible (legible_of_decodeWithin h)

end Expr

/-- So has each tree of a unit. -/
theorem SourceUnit.normal_of_decode? {v : Json} {unit : SourceUnit} (h : decode? v = some unit) :
    ∀ tree ∈ unit.trees, ∀ t ∈ tree.types, t.Normal := by
  rcases Option.bind_eq_some_iff.1 h with ⟨slots, -, h⟩
  split at h
  · rcases Option.bind_eq_some_iff.1 h with ⟨path, -, h⟩
    rcases Option.bind_eq_some_iff.1 h with ⟨source, -, h⟩
    rcases Option.bind_eq_some_iff.1 h with ⟨symbols, -, h⟩
    rcases exists_of_withDefault (lossless_listOf Expr.lossless) h rfl with ⟨trees, htrees, h⟩
    cases h
    intro tree htree
    rcases exists_of_mem_mapM htrees htree with ⟨item, -, hitem⟩
    exact Expr.normal_of_decode? hitem
  · cases h

/-- Every value that has been read from a document is read back from its written form: the fields
that are left out when there is nothing to write, the order of edits, the members of sets and the
entries of maps are all the same again. The types in it are written in the words that
`TypeRef.parse?` gives to them. -/
theorem written_forms_lossless :
    (∀ v e, Expr.decode? v = some e → Expr.decode? e.encode = some e ∧ ∀ t ∈ e.types, t.Normal) ∧
      (∀ v unit, SourceUnit.decode? v = some unit → SourceUnit.decode? unit.encode = some unit ∧
        ∀ tree ∈ unit.trees, ∀ t ∈ tree.types, t.Normal) ∧
      (∀ (v : Json) plan, FixPlan.decode? v = some plan → FixPlan.decode? plan.encode = some plan) ∧
      (∀ (v : Json) d, Diagnostic.decode? v = some d → Diagnostic.decode? d.encode = some d) ∧
      (∀ (v : Json) info, RuleInfo.decode? v = some info →
        RuleInfo.decode? info.encode = some info) ∧
      (∀ (v : Json) c, Config.decode? v = some c → Config.decode? c.encode = some c) ∧
      ∀ s t, TypeRef.decode? (Json.text s) = some t → t.name = Text.trim s ∧ t.Normal :=
  ⟨fun v e h => ⟨Expr.lossless v e h, Expr.normal_of_decode? h⟩,
    fun v unit h => ⟨SourceUnit.lossless v unit h, SourceUnit.normal_of_decode? h⟩,
    fun v plan h => FixPlan.lossless v plan h,
    fun v d h => Diagnostic.lossless v d h,
    fun v info h => RuleInfo.lossless v info h,
    fun v c h => Config.lossless v c h,
    fun _ t h => ⟨TypeRef.name_of_decode? h, TypeRef.normal_of_readBack (TypeRef.lossless _ t h)⟩⟩

namespace SourceUnit

/-- A unit with a call, in the words of its writer: blanks around a type, a null, a class named
twice. -/
def writtenWithCall : Json :=
  .object [("symbols", .list [.text "b.B", .text "a.A", .text "b.B"]), ("trees", .list [.object [
    ("children", .list [.object [("kind", .text "identifier"), ("span", .list [.nat 6, .nat 7]),
      ("target", .null), ("type", .text " float ")]]),
    ("kind", .text "method-call"), ("span", .object [("start", .nat 0), ("end", .nat 8)]),
    ("target", .object [("name", .text "round"), ("owner", .text "\tjava.lang.Math")])]])]

/-- The same unit as it is read. -/
def readWithCall : SourceUnit where
  path := ⟨""⟩
  source := ""
  symbols := .ofList ["a.A", "b.B"]
  trees :=
    [⟨.methodCall, ⟨0, 8⟩, none, some ⟨.named "java.lang.Math", "round", false⟩,
      [⟨.identifier, ⟨6, 7⟩, some (.primitive .float), none, []⟩]⟩]

end SourceUnit

/-- A finding with a plan whose edit and imports are written in short. -/
def Diagnostic.writtenWithFix : Json :=
  .object [("message", .text "m"), ("rule_id", .text "R1"), ("severity", .text "error"),
    ("span", .list [.nat 0, .nat 8]), ("fix", .object [
      ("edits",
        .list [.object [("text", .text "x"), ("kind", .text "replace"),
          ("span", .list [.nat 0, .nat 1])]]),
      ("imports", .list [.text "b.B", .text "a.A"])])]

/-- A configuration with a severity that is given twice. -/
def Config.writtenWithSeverity : Json :=
  .object [("rules", .object [("severity", .object [("R2", .text "info"), ("R1", .text "info"),
      ("R2", .text "error")])]),
    ("fix", .object [("parenthesize", .list [.text "lambda", .text "binary", .text "lambda"])])]

theorem written_forms_lossless_call :
    (SourceUnit.decode? SourceUnit.writtenWithCall = some SourceUnit.readWithCall ∧
        SourceUnit.decode? SourceUnit.readWithCall.encode = some SourceUnit.readWithCall) ∧
      (∃ d, Diagnostic.decode? Diagnostic.writtenWithFix = some d ∧
        Diagnostic.decode? d.encode = some d) ∧
      (∃ c, Config.decode? Config.writtenWithSeverity = some c ∧
        Config.decode? c.encode = some c) := by
  have hunit : SourceUnit.decode? SourceUnit.writtenWithCall = some SourceUnit.readWithCall := by
    rfl
  refine ⟨⟨hunit, (written_forms_lossless.2.1 _ _ hunit).1⟩, ⟨_, rfl, ?_⟩, ⟨_, rfl, ?_⟩⟩
  · exact written_forms_lossless.2.2.2.1 Diagnostic.writtenWithFix _ rfl
  · exact written_forms_lossless.2.2.2.2.2.1 Config.writtenWithSeverity _ rfl

end CallLint
