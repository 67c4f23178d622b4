import Renaming.Java.Binding.Statements
import Renaming.Proofs.Java.Locals.Expressions

/-!
# Local variables of statements

What statements declare: the variables of blocks, loops, handlers and resources. The value of a
variable is walked before the variable is declared, and so is what a loop runs through.
-/

namespace Renaming.Java.Binding

variable {α : Type} {ctx : BindingContext} {p : Around} {bound : Nat}
  {sub : Task → Binding Meaning} {n c : Node}

theorem lists_writtenType {type : Option Node} : Lists ctx p.host [] (writtenType type) := by
  cases type with
  | none => exact .pure
  | some t =>
    refine .after lists_isInferred fun inferred => ?_
    split
    · exact .pure
    · exact .after lists_typeNode fun _ => .pure

theorem lists_declareNamed (hn : n.Within (bound + 4)) {type : ExprType}
    (h : ∀ e ∈ n.oneAs .name NodeKind.isName, e.2 e.1 = true) :
    Lists ctx p.host ((n.oneAs .name NodeKind.isName).flatMap (LocalName.of p.host ·.1))
      (declareNamed n type) := by
  unfold declareNamed
  obtain ⟨hchild, hfound⟩ | ⟨name, hchild, hfound, -⟩ := oneAs_cases hn h (LocalName.of p.host)
  · rw [hchild, hfound]
    exact .pure
  · rw [hchild, hfound]
    exact lists_declareLocal

/-! ## Layout -/

/-- The parts of a node that do not wait, and then the others. -/
theorem locals_of_waits (hn : n.LaidOut) (hmute : n.kind.isMute = false)
    (htype : n.kind.isTypeDeclaration = false) (first later : List Slot)
    (hfirst : (n.layout.map Prod.fst).filter (!p.waits n ·) = first.map Prod.fst)
    (hlater : (n.layout.map Prod.fst).filter (p.waits n ·) = later.map Prod.fst) :
    n.locals ctx p = first.flatMap (p.found ctx n ·.1) ++ later.flatMap (p.found ctx n ·.1) := by
  rw [hn.arranged.locals_eq hmute (by simp [htype]), Around.walked, hfirst, hlater,
    List.flatMap_append, List.flatMap_map, List.flatMap_map]

theorem split_of_waits (slots : List Slot) (h : ∀ e ∈ slots, p.waits n e.1 = true) :
    (slots.map Prod.fst).filter (!p.waits n ·) = [] ∧
      (slots.map Prod.fst).filter (p.waits n ·) = slots.map Prod.fst := by
  have hall : ∀ c ∈ slots.map Prod.fst, p.waits n c = true := List.forall_mem_map.2 h
  exact ⟨List.filter_eq_nil_iff.2 fun c hc => by simp [hall c hc], List.filter_eq_self.2 hall⟩

theorem split_of_not_waits (slots : List Slot) (h : ∀ e ∈ slots, p.waits n e.1 = false) :
    (slots.map Prod.fst).filter (!p.waits n ·) = slots.map Prod.fst ∧
      (slots.map Prod.fst).filter (p.waits n ·) = [] := by
  have hall : ∀ c ∈ slots.map Prod.fst, p.waits n c = false := List.forall_mem_map.2 h
  exact ⟨List.filter_eq_self.2 fun c hc => by simp [hall c hc],
    List.filter_eq_nil_iff.2 fun c hc => by simp [hall c hc]⟩

/-- The variable of a declarator is declared after its value. -/
theorem locals_variableDeclarator (hn : n.LaidOut) (hkind : n.kind = .variableDeclarator) :
    n.locals ctx p = (n.oneAs .value NodeKind.isValue).flatMap (·.1.locals ctx p.plain) ++
      if p.sense = .locals then (n.oneAs .name NodeKind.isName).flatMap (LocalName.of p.host ·.1)
      else [] := by
  have hlayout : n.layout = n.oneAs .name NodeKind.isName ++ n.oneAs .value NodeKind.isValue := by
    rw [Node.layout, hkind]
  have hfits := hn.arranged.fits
  rw [hlayout, List.forall_mem_append] at hfits
  obtain ⟨hname, hvalue⟩ := hfits
  have hvalues := flatMap_oneAs_congr hvalue (p.found ctx n) (·.locals ctx p.plain)
    fun c hc _ => Node.found_of_into (by simp [Around.names, Node.mayName, hkind, hc])
      (by simp [Around.into, hkind])
  have hnames : (n.oneAs .name NodeKind.isName).flatMap (p.found ctx n ·.1) =
      if p.sense = .locals then (n.oneAs .name NodeKind.isName).flatMap (LocalName.of p.host ·.1)
      else [] := by
    split
    · rename_i hsense
      exact flatMap_oneAs_congr hname _ _ fun c hc _ => Node.found_of_names (by
        simp [Around.names, Node.mayName, hkind, hc, hsense])
    · rename_i hsense
      refine List.flatMap_eq_nil_iff.2 fun e he => ?_
      rw [Node.found_of_into (q := p.plain) (by simp [Around.names, hkind, hsense])
        (by simp [Around.into, hkind])]
      have hword := hname e he
      obtain ⟨c, hc, rfl⟩ := List.mem_map.1 he
      exact locals_of_isName hword
  obtain ⟨hnameFirst, hnameLater⟩ := split_of_waits (p := p) (n := n)
    (n.oneAs .name NodeKind.isName) fun e he => by
      simp [Around.waits, hkind, role_of_mem_oneAs he]
  obtain ⟨hvalueFirst, hvalueLater⟩ := split_of_not_waits (p := p) (n := n)
    (n.oneAs .value NodeKind.isValue) fun e he => by
      simp [Around.waits, hkind, role_of_mem_oneAs he]
  rw [locals_of_waits hn (by rw [hkind]; rfl) (by rw [hkind]; rfl)
    (n.oneAs .value NodeKind.isValue) (n.oneAs .name NodeKind.isName), hvalues, hnames]
  · rw [hlayout, List.map_append, List.filter_append, hnameFirst, hvalueFirst, List.nil_append]
  · rw [hlayout, List.map_append, List.filter_append, hnameLater, hvalueLater, List.append_nil]

variable (hsub : ListsBelow ctx (bound + 4) sub)

include hsub

/-! ## Parts of statements -/

theorem lists_statement_task (p : Around) (hc : c.Within bound) (hkind : c.kind.isInBlock = true) :
    Lists ctx p.host (c.locals ctx p) (discard (sub (.statement c))) :=
  .discard (hsub.inner (.statement c) hc p hkind)

theorem lists_statement? (hn : n.Within (bound + 4)) {role : Role}
    (h : ∀ e ∈ n.oneAs role NodeKind.isInBlock, e.2 e.1 = true) :
    Lists ctx p.host ((n.oneAs role NodeKind.isInBlock).flatMap (·.1.locals ctx p.plain))
      (statement? sub (n.child? role)) :=
  lists_oneAs (·.locals ctx p.plain) hn h .pure fun _ _ hc hkind =>
    lists_statement_task hsub p.plain hc hkind

theorem lists_statementsIn (hn : n.Within (bound + 4)) {role : Role}
    (h : ∀ e ∈ n.manyAs role NodeKind.isInBlock, e.2 e.1 = true) :
    Lists ctx p.host ((n.manyAs role NodeKind.isInBlock).flatMap (·.1.locals ctx p.plain))
      (statements sub (n.childrenIn role)) := by
  obtain ⟨hfound, hparts⟩ := manyAs_cases hn h (·.locals ctx p.plain)
  rw [hfound]
  exact .forM fun c hc =>
    lists_statement_task hsub p.plain (hparts c hc).2.1 (hparts c hc).2.2

theorem lists_localVariables (hn : n.Within (bound + 4)) (hkind : n.kind = .localVariables) :
    Lists ctx p.host (n.locals ctx p) (localVariables sub n) := by
  have hlayout : n.layout = n.marksFirst ++ n.manyAs .declarator (· == .variableDeclarator) := by
    rw [Node.layout, hkind]
  have hfits := hn.laidOut.arranged.fits
  rw [hlayout, List.forall_mem_append] at hfits
  obtain ⟨hmarks, hdeclarators⟩ := hfits
  obtain ⟨hfound, hparts⟩ := manyAs_cases hn hdeclarators (p.found ctx n)
  rw [hn.laidOut.arranged.locals_eq_layout (by rw [hkind]; rfl) (by rw [hkind]; rfl)
    fun c => by simp [Around.waits, hkind], hlayout, List.flatMap_append,
    flatMap_marksFirst (by rw [hkind]; rfl) hmarks, hfound]
  refine .bind (lists_annotations hsub hn) fun _ => .after lists_writtenType fun written =>
    .forM fun d hd => ?_
  obtain ⟨-, hwithin, htest⟩ := hparts d hd
  rw [beq_iff_eq] at htest
  have hlocals : p.found ctx n d = d.locals ctx (p.as .locals) :=
    Node.found_of_into (by simp [Around.names, Node.mayName, hkind])
      (by simp [Around.into, hkind, htest])
  have hfits := hwithin.laidOut.arranged.fits
  rw [Node.layout, htest, List.forall_mem_append] at hfits
  obtain ⟨hname, hvalue⟩ := hfits
  rw [hlocals, locals_variableDeclarator hwithin.laidOut htest,
    if_pos (show (p.as .locals).sense = .locals from rfl)]
  refine .after lists_dims fun _ => ?_
  extract_lets expected declare
  have hdeclare (value : Option ExprType) : Lists ctx p.host
      ((d.oneAs .name NodeKind.isName).flatMap (LocalName.of p.host ·.1)) (declare value) :=
    lists_declareNamed hwithin.up hname
  obtain ⟨hchild, hfound⟩ | ⟨v, hchild, hfound, -, hv, hkind⟩ :=
    oneAs_cases hwithin.up hvalue (·.locals ctx (p.as .locals).plain)
  · rw [hchild, hfound]
    exact .bind .pure hdeclare
  · rw [hchild, hfound]
    exact .bind (lists_initializer_task hsub hv hkind expected) fun _ => .bind .pure hdeclare

theorem lists_enhancedFor (hn : n.Within (bound + 4)) (hkind : n.kind = .enhancedFor) :
    Lists ctx p.host (n.locals ctx p) (enhancedFor sub n) := by
  have hlayout : n.layout = n.marksFirst ++ n.oneAs .name NodeKind.isName ++
      n.oneAs .value NodeKind.isValue ++ n.oneAs .body NodeKind.isInBlock := by
    rw [Node.layout, hkind]
  have hfits := hn.laidOut.arranged.fits
  rw [hlayout, List.forall_mem_append, List.forall_mem_append, List.forall_mem_append] at hfits
  obtain ⟨⟨⟨hmarks, hname⟩, hvalue⟩, hbody⟩ := hfits
  have hplain (role : Role) (hrole : role ≠ .name) (c : Node) (hc : c.role = some role) :
      p.found ctx n c = c.locals ctx p.plain :=
    Node.found_of_into (by simp [Around.names, Node.mayName, hkind, hc, hrole])
      (by simp [Around.into, hkind])
  have hvalues := flatMap_oneAs_congr hvalue _ _ fun c hc _ => hplain .value (by decide) c hc
  have hbodies := flatMap_oneAs_congr hbody _ _ fun c hc _ => hplain .body (by decide) c hc
  have hnames := flatMap_oneAs_congr hname (p.found ctx n) (LocalName.of p.host) fun c hc _ =>
    Node.found_of_names (by simp [Around.names, Node.mayName, hkind, hc])
  have hlocals : n.locals ctx p = (n.oneAs .value NodeKind.isValue).flatMap
      (·.1.locals ctx p.plain) ++ (n.marks.flatMap (·.locals ctx p.plain) ++
        ((n.oneAs .name NodeKind.isName).flatMap (LocalName.of p.host ·.1) ++
          (n.oneAs .body NodeKind.isInBlock).flatMap (·.1.locals ctx p.plain))) := by
    obtain ⟨hmarksFirst, hmarksLater⟩ := split_of_waits (p := p) (n := n) n.marksFirst
      fun e he => by simp [Around.waits, hkind, role_of_mem_marksFirst hmarks he]
    obtain ⟨hnameFirst, hnameLater⟩ := split_of_waits (p := p) (n := n)
      (n.oneAs .name NodeKind.isName) fun e he => by
        simp [Around.waits, hkind, role_of_mem_oneAs he]
    obtain ⟨hvalueFirst, hvalueLater⟩ := split_of_not_waits (p := p) (n := n)
      (n.oneAs .value NodeKind.isValue) fun e he => by
        simp [Around.waits, hkind, role_of_mem_oneAs he]
    obtain ⟨hbodyFirst, hbodyLater⟩ := split_of_waits (p := p) (n := n)
      (n.oneAs .body NodeKind.isInBlock) fun e he => by
        simp [Around.waits, hkind, role_of_mem_oneAs he]
    rw [locals_of_waits hn.laidOut (by rw [hkind]; rfl) (by rw [hkind]; rfl)
      (n.oneAs .value NodeKind.isValue) (n.marksFirst ++ (n.oneAs .name NodeKind.isName ++
        n.oneAs .body NodeKind.isInBlock)), List.flatMap_append, List.flatMap_append, hvalues,
      hnames, hbodies, flatMap_marksFirst (by rw [hkind]; rfl) hmarks]
    · simp only [hlayout, List.map_append, List.filter_append, hmarksFirst, hnameFirst,
        hvalueFirst, hbodyFirst, List.nil_append, List.append_nil]
    · simp only [hlayout, List.map_append, List.filter_append, hmarksLater, hnameLater,
        hvalueLater, hbodyLater, List.append_assoc, List.nil_append]
  rw [hlocals]
  refine lists_withBlock (.bind (lists_expression? hsub hn hvalue) fun iterable =>
    .bind (lists_annotations hsub hn) fun _ => .after lists_writtenType fun written => .read ?_)
  exact .bind (lists_declareNamed hn hname) fun _ => lists_statement? hsub hn hbody

theorem lists_catchClause (hn : n.Within (bound + 4)) (hkind : n.kind = .catchClause) :
    Lists ctx p.host (n.locals ctx p) (catchClause sub n) := by
  have hlayout : n.layout = Node.slots (n.childOfKind? .catchParameter).toList (fun _ => true) ++
      n.oneAs .body NodeKind.isInBlock := by
    rw [Node.layout, hkind]
  obtain ⟨hlocals, hfits⟩ := parts_of_isPlain hn.laidOut (by rw [hkind]; rfl) hlayout
  obtain ⟨-, hbody⟩ := List.forall_mem_append.1 hfits
  rw [hlocals, List.flatMap_append, flatMap_slots _ _ (·.locals ctx p.plain)]
  refine lists_withBlock ?_
  extract_lets walkBody
  have hwalkBody (u : Unit) : Lists ctx p.host
      ((n.oneAs .body NodeKind.isInBlock).flatMap (·.1.locals ctx p.plain)) (walkBody u) :=
    lists_statement? hsub hn hbody
  cases hparam : n.childOfKind? .catchParameter with
  | none => exact hwalkBody ()
  | some param =>
    have hkind : param.kind = .catchParameter := by simpa using List.find?_some hparam
    have hparam' : param.Within bound :=
      hn.child (List.mem_filter.1 (List.mem_of_find?_eq_some hparam)).1
    have hfits := hparam'.laidOut.arranged.fits
    rw [Node.layout, hkind, List.forall_mem_append] at hfits
    have hnames := flatMap_oneAs_congr hfits.2 (p.plain.found ctx param) (LocalName.of p.host)
      fun c hc _ => Node.found_of_names (by simp [Around.names, Node.mayName, hkind, hc])
    have hlocals : param.locals ctx p.plain = param.marks.flatMap (·.locals ctx p.plain) ++
        (param.oneAs .name NodeKind.isName).flatMap (LocalName.of p.host ·.1) := by
      rw [hparam'.laidOut.arranged.locals_eq_layout (by rw [hkind]; rfl) (by rw [hkind]; rfl)
        fun c => by simp [Around.waits, hkind], Node.layout, hkind, List.flatMap_append, hnames,
        flatMap_marksFirst (by rw [hkind]; rfl) hfits.1]
      rfl
    rw [Option.toList_some, List.flatMap_singleton, hlocals, List.append_assoc]
    refine .bind (lists_annotations hsub hparam'.up) fun _ =>
      .after (.mapM_nil fun _ _ => lists_typeNode) fun types => ?_
    exact .bind (lists_declareNamed hparam'.up hfits.2) fun u => hwalkBody u

omit hsub in
theorem found_in_resource {d : Node} (hkind : c.kind = .resource) (hd : d.role ≠ some .name) :
    p.plain.found ctx c d = d.locals ctx p.plain :=
  Node.found_of_into (by simp [Around.names, Node.mayName, hkind, hd])
    (by simp [Around.into, hkind]; rfl)

omit hsub in
/-- A resource that is a variable or a field declares nothing itself. -/
theorem locals_usedResource (hc : c.LaidOut) (hkind : c.kind = .resource)
    (hname : c.child? .name = none) :
    c.locals ctx p.plain = c.namedChildren.flatMap (·.locals ctx p.plain) ∧
      ∀ d ∈ c.namedChildren, d.kind.isValue = true := by
  have hlayout : c.layout = c.all NodeKind.isValue := by rw [Node.layout, hkind, hname]; rfl
  have hrole (e : Slot) (he : e ∈ c.all NodeKind.isValue) : e.1.role ≠ some .name := by
    obtain ⟨d, hd, rfl⟩ := List.mem_map.1 he
    simpa using List.find?_eq_none.1 hname d (List.mem_filter.1 hd).1
  have hfits := hc.arranged.fits
  rw [hlayout, Node.all, forall_mem_slots] at hfits
  obtain ⟨hfirst, hlater⟩ := split_of_not_waits (p := p.plain) (n := c) (c.all NodeKind.isValue)
    fun e he => by simp [Around.waits, hkind, hrole e he]
  refine ⟨?_, hfits⟩
  rw [locals_of_waits hc (by rw [hkind]; rfl) (by rw [hkind]; rfl) (c.all NodeKind.isValue) [],
    List.flatMap_nil, List.append_nil,
    List.flatMap_congr fun e he => found_in_resource hkind (hrole e he), Node.all,
    flatMap_slots _ _ (·.locals ctx p.plain)]
  · rw [hlayout, hfirst]
  · rw [hlayout, hlater]
    rfl

omit hsub in
/-- A resource declares its variable after what is found in its value. -/
theorem locals_namedResource (hc : c.LaidOut) (hkind : c.kind = .resource) {name : Node}
    (hname : c.child? .name = some name) :
    c.locals ctx p.plain = c.marks.flatMap (·.locals ctx p.plain) ++
      ((c.oneAs .value NodeKind.isValue).flatMap (·.1.locals ctx p.plain) ++
        LocalName.of p.host name) ∧
      ∀ e ∈ c.oneAs .value NodeKind.isValue, e.2 e.1 = true := by
  have hlayout : c.layout = c.marksFirst ++ c.oneAs .name NodeKind.isName ++
      c.oneAs .value NodeKind.isValue := by
    rw [Node.layout, hkind, hname]
    rfl
  have hfits := hc.arranged.fits
  rw [hlayout, List.forall_mem_append, List.forall_mem_append] at hfits
  obtain ⟨⟨hmarks, hnamed⟩, hvalue⟩ := hfits
  have hvalues := flatMap_oneAs_congr hvalue (p.plain.found ctx c) (·.locals ctx p.plain)
    fun d hd _ => found_in_resource hkind (by simp [hd])
  have hrole : name.role = some .name := by simpa using List.find?_some hname
  have hfound : p.plain.found ctx c name = LocalName.of p.host name :=
    Node.found_of_names (by simp [Around.names, Node.mayName, hkind, hrole])
  have hnames : (c.oneAs .name NodeKind.isName).flatMap (p.plain.found ctx c ·.1) =
      LocalName.of p.host name := by
    rw [Node.oneAs, hname, flatMap_slots _ _ (p.plain.found ctx c), Option.toList_some,
      List.flatMap_singleton, hfound]
  obtain ⟨hmarksFirst, hmarksLater⟩ := split_of_not_waits (p := p.plain) (n := c) c.marksFirst
    fun e he => by simp [Around.waits, hkind, role_of_mem_marksFirst hmarks he]
  obtain ⟨hnameFirst, hnameLater⟩ := split_of_waits (p := p.plain) (n := c)
    (c.oneAs .name NodeKind.isName) fun e he => by
      simp [Around.waits, hkind, role_of_mem_oneAs he]
  obtain ⟨hvalueFirst, hvalueLater⟩ := split_of_not_waits (p := p.plain) (n := c)
    (c.oneAs .value NodeKind.isValue) fun e he => by
      simp [Around.waits, hkind, role_of_mem_oneAs he]
  refine ⟨?_, hvalue⟩
  rw [locals_of_waits hc (by rw [hkind]; rfl) (by rw [hkind]; rfl)
    (c.marksFirst ++ c.oneAs .value NodeKind.isValue) (c.oneAs .name NodeKind.isName),
    List.flatMap_append, hvalues, hnames, flatMap_marksFirst (by rw [hkind]; rfl) hmarks,
    List.append_assoc]
  · rfl
  · simp only [hlayout, List.map_append, List.filter_append, hmarksFirst, hnameFirst,
      hvalueFirst, List.append_nil]
  · simp only [hlayout, List.map_append, List.filter_append, hmarksLater, hnameLater,
      hvalueLater, List.append_nil, List.nil_append]

theorem lists_resource (hc : c.Within bound)
    (htest : (c.kind == .resource || c.kind.isValue) = true) :
    Lists ctx p.host (c.locals ctx p.plain) (resource sub c) := by
  unfold resource
  split
  · rename_i hresource
    have hvalue : c.kind.isValue = true := by
      rw [bne_iff_ne] at hresource
      simpa [hresource] using htest
    exact .discard (lists_expression hsub p.plain hc hvalue)
  · rename_i hresource
    have hkind : c.kind = .resource := by simpa using hresource
    cases hname : c.child? .name with
    | none =>
      obtain ⟨hlocals, hvalues⟩ := locals_usedResource (p := p) hc.laidOut hkind hname
      rw [hlocals]
      exact .discard (lists_expressions hsub fun d hd =>
        ⟨hc.inner (List.mem_filter.1 hd).1, hvalues d hd⟩)
    | some name =>
      obtain ⟨hlocals, hvalue⟩ := locals_namedResource (p := p) hc.laidOut hkind hname
      rw [hlocals]
      refine .bind (lists_annotations hsub hc.up) fun _ =>
        .after lists_writtenType fun written => ?_
      exact .bind (lists_expression? hsub hc.up hvalue) fun value => lists_declareLocal

theorem lists_tryWithResources (hn : n.Within (bound + 4)) (hkind : n.kind = .tryWithResources) :
    Lists ctx p.host (n.locals ctx p) (tryWithResources sub n) := by
  refine lists_withBlock (lists_all hn (by rw [Node.layout, hkind]) (by rw [hkind]; rfl)
    fun c hc htest => ?_)
  split
  · rename_i hresources
    rw [beq_iff_eq] at hresources
    exact lists_all (p := p.plain) hc.up (by rw [Node.layout, hresources])
      (by rw [hresources]; rfl) fun r hr htest => lists_resource hsub hr htest
  · rename_i hresources
    rw [Bool.or_eq_true, or_iff_right hresources] at htest
    exact lists_statement_task hsub p.plain hc htest

theorem lists_forStatement (hn : n.Within (bound + 4)) (hkind : n.kind = .forStatement) :
    Lists ctx p.host (n.locals ctx p) (forStatement sub n) := by
  have hlayout : n.layout =
      n.manyAs .init NodeKind.isInBlock ++ n.oneAs .condition NodeKind.isValue ++
        n.manyAs .update NodeKind.isValue ++ n.oneAs .body NodeKind.isInBlock := by
    rw [Node.layout, hkind]
  obtain ⟨hlocals, hfits⟩ := parts_of_isPlain hn.laidOut (by rw [hkind]; rfl) hlayout
  rw [List.forall_mem_append, List.forall_mem_append, List.forall_mem_append] at hfits
  obtain ⟨⟨⟨hinit, hcondition⟩, hupdate⟩, hbody⟩ := hfits
  obtain ⟨hupdates, hparts⟩ := manyAs_cases hn hupdate (·.locals ctx p.plain)
  rw [hlocals, List.flatMap_append, List.flatMap_append, List.flatMap_append, hupdates,
    List.append_assoc, List.append_assoc]
  refine lists_withBlock (.bind (lists_statementsIn hsub hn hinit) fun _ =>
    .bind (.discard (lists_expression? hsub hn hcondition)) fun _ =>
      .bind (.discard (lists_expressions hsub fun c hc => (hparts c hc).2)) fun _ => ?_)
  exact lists_statement? hsub hn hbody

theorem lists_ifStatement (hn : n.Within (bound + 4)) (hkind : n.kind = .ifStatement) :
    Lists ctx p.host (n.locals ctx p) (ifStatement sub n) := by
  have hlayout : n.layout =
      n.oneAs .condition NodeKind.isValue ++ n.oneAs .consequence NodeKind.isInBlock ++
        n.oneAs .alternative NodeKind.isInBlock := by
    rw [Node.layout, hkind]
  obtain ⟨hlocals, hfits⟩ := parts_of_isPlain hn.laidOut (by rw [hkind]; rfl) hlayout
  rw [List.forall_mem_append, List.forall_mem_append] at hfits
  obtain ⟨⟨hcondition, hconsequence⟩, halternative⟩ := hfits
  rw [hlocals, List.flatMap_append, List.flatMap_append, List.append_assoc]
  exact .bind (.discard (lists_expression? hsub hn hcondition)) fun _ =>
    .bind (lists_statement? hsub hn hconsequence) fun _ => lists_statement? hsub hn halternative

theorem lists_explicitConstructorCall (hn : n.Within (bound + 4))
    (hkind : n.kind = .explicitConstructorCall) :
    Lists ctx p.host (n.locals ctx p) (explicitConstructorCall sub n) := by
  have hlayout : n.layout =
      n.oneAs .object NodeKind.isValue ++ n.oneAs .arguments (· == .argumentList) := by
    rw [Node.layout, hkind]
  obtain ⟨hlocals, hfits⟩ := parts_of_isPlain hn.laidOut (by rw [hkind]; rfl) hlayout
  obtain ⟨hobject, harguments⟩ := List.forall_mem_append.1 hfits
  rw [hlocals, List.flatMap_append]
  exact .bind (.discard (lists_expression? hsub hn hobject)) fun _ =>
    .discard (lists_arguments (q := p.plain) hsub (by rintro ⟨⟩) hn harguments)

/-- The words in front of a statement declare nothing. -/
theorem lists_labeledStatement (hn : n.Within (bound + 4)) (hkind : n.kind = .labeledStatement) :
    Lists ctx p.host (n.locals ctx p)
      (statements sub (n.namedChildren.filter (·.kind != .identifier))) := by
  have hlayout : n.layout = n.all NodeKind.isInBlock := by rw [Node.layout, hkind]
  obtain ⟨hlocals, hfits⟩ := parts_of_isPlain hn.laidOut (by rw [hkind]; rfl) hlayout
  rw [Node.all, forall_mem_slots] at hfits
  have hwords : n.locals ctx p =
      (n.namedChildren.filter (·.kind != .identifier)).flatMap (·.locals ctx p.plain) := by
    rw [hlocals, Node.all, flatMap_slots _ _ (·.locals ctx p.plain)]
    refine (Node.flatMap_filter_of_nil fun c hc => Node.locals_of_isMute ?_).symm
    rw [bne_eq_false_iff_eq] at hc
    rw [hc]
    rfl
  rw [hwords]
  refine .forM fun c hc => ?_
  have hmem := (List.mem_filter.1 hc).1
  exact lists_statement_task hsub p.plain (hn.child (List.mem_filter.1 hmem).1) (hfits c hmem)

/-- A statement that is none is walked as an expression. -/
theorem lists_statement (hn : n.Within (bound + 4)) (hkind : n.kind.isInBlock = true)
    (hsize : (Task.statement n).size ≤ bound + 4) :
    Lists ctx p.host (n.locals ctx p) (statement sub n) := by
  have hlt {task : Task} (hnode : task.node = n) (hrank : task.rank ≤ 1) :
      task.size < bound + 4 := by
    simp only [Task.size, hnode, Task.rank] at hsize hrank ⊢
    rw [show (Task.statement n).node = n from rfl] at hsize
    omega
  unfold statement
  split
  iterate 2
    next hk =>
      exact lists_withBlock (lists_all hn (by rw [Node.layout, hk]) (by rw [hk]; rfl)
        fun c hc htest => lists_statement_task hsub p.plain hc htest)
  case h_3 hk => exact lists_localVariables hsub hn hk
  iterate 2
    next hk =>
      exact .discard (lists_allValues hsub hn (by rw [Node.layout, hk]) (by rw [hk]; rfl))
  case h_6 hk => exact lists_ifStatement hsub hn hk
  case h_7 hk => exact lists_forStatement hsub hn hk
  case h_8 hk => exact lists_enhancedFor hsub hn hk
  case h_9 hk => exact lists_catchClause hsub hn hk
  case h_10 hk => exact lists_tryWithResources hsub hn hk
  case h_11 hk => exact lists_labeledStatement hsub hn hk
  iterate 2
    next hk =>
      have hlocals : n.locals ctx p = [] := by
        rw [hn.laidOut.arranged.locals_of_isPlain (by rw [hk]; rfl), Node.layout, hk]
        rfl
      rw [hlocals]
      exact .pure
  case h_14 hk => exact lists_explicitConstructorCall hsub hn hk
  iterate 9
    next hk =>
      exact lists_all hn (by rw [Node.layout, hk]) (by rw [hk]; rfl) fun c hc htest =>
        lists_statementOrExpression hsub hc htest
  case h_24 =>
    split
    · rename_i htype
      exact .discard (hsub (.typeDeclaration n true) p hn.laidOut htype (hlt rfl (Nat.zero_le 1)))
    · rename_i htype
      have hvalue : n.kind.isValue = true := by
        generalize n.kind = k at *
        unfold NodeKind.isInBlock at hkind
        split at hkind <;> try contradiction
        refine (Bool.or_eq_true_iff.1 hkind).resolve_left fun hstatement => ?_
        unfold NodeKind.isStatement at hstatement
        split at hstatement <;> contradiction
      exact .discard (.before (hsub (.expression n) p hn.laidOut hvalue (hlt rfl (Nat.le_refl 1)))
        fun _ => .pure)

end Renaming.Java.Binding
