import Preflight.Proofs.Blueprint.Written
import Preflight.Proofs.Layout.Excerpt
import Preflight.Proofs.Layout.Leading
import Preflight.Proofs.Layout.Placing
import Preflight.Proofs.Parser.RoundTrip

/-! # How declarations are laid

The position of a draft is where its text ends, so what is written between two positions is laid
there. A draft counts lines at its own line feeds only, so names, types, paths and keys have to be
free of them. -/

namespace Preflight
set_option autoImplicit false

theorem getLast?_append {s t : String} {c : Char} (h : t.toList.getLast? = some c) :
    (s ++ t).toList.getLast? = some c := by
  rw [String.toList_append, List.getLast?_append, h]
  rfl

theorem isOneLine_append {s t : String} (hs : isOneLine s = true) (ht : isOneLine t = true) :
    isOneLine (s ++ t) = true := by
  simp_all [isOneLine]

def LoopSpec.oneLine (loop : LoopSpec) : Bool :=
  isOneLine loop.item && loop.index.all isOneLine

def oneLineKeys (properties : Std.TreeMap String String) : Bool :=
  properties.toList.all fun pair => isOneLine pair.1

def ResourceSpec.oneLine (spec : ResourceSpec) : Bool :=
  isOneLine spec.name && isOneLine spec.typeText && spec.loop.all LoopSpec.oneLine &&
    oneLineKeys spec.properties

def ModuleSpec.oneLine (spec : ModuleSpec) : Bool :=
  isOneLine spec.name && isOneLine spec.path && spec.loop.all LoopSpec.oneLine &&
    oneLineKeys spec.properties

def Blueprint.oneLine (b : Blueprint) : Bool :=
  b.params.all isOneLine && b.vars.all isOneLine && b.resources.all ResourceSpec.oneLine &&
    b.modules.all ModuleSpec.oneLine

/-! ## Places that findings point at -/

def Property.shown (p : Property Expr) : List Span :=
  if p.key = "name" ∧ p.value.isString = true then [p.value.span] else []

def Expr.shown : Expr → List Span
  | object _ properties => properties.flatMap Property.shown
  | _ => []

def Body.shown : Body → List Span
  | object value => value.shown
  | conditional _ _ inner => inner.shown
  | loop _ inner => inner.shown
  | error _ => []

/-- The name of a declaration, and the string that it is deployed under. -/
def Region.shown : Region → List Span
  | resource r => r.name.span :: r.body.shown
  | module d => d.name.span :: d.body.shown
  | _ => []

/-! ## Drafts -/

variable {rs : List Region} {shown : List Span} {before : List Char}

/-- The position of the draft is where its text ends, and the regions stand behind `before`. The
places in `shown` are seen on their lines. -/
structure Draft.Since (before : List Char) (rs : List Region) (shown : List Span) (d : Draft) :
    Prop where
  position : d.position = Position.past {} d.text.toList
  grown : before <+: d.text.toList
  placed : Placed d.text.toList StringText (utf8Length before) d.position.offset rs
  seen : ∀ s ∈ shown, s.Seen d.text.toList

namespace Draft

variable {d : Draft}

theorem offset_eq (h : d.position = Position.past {} d.text.toList) :
    d.position.offset = utf8Length d.text.toList := by
  rw [h, Position.offset_past, Nat.zero_add]

theorem Since.refl (h : d.position = Position.past {} d.text.toList) :
    d.Since d.text.toList [] [] :=
  ⟨h, List.prefix_rfl, .nil (offset_eq h).ge, nofun⟩

/-- Regions are told from here on. -/
theorem Since.begin (h : d.Since before rs shown) : d.Since d.text.toList [] shown :=
  ⟨h.position, List.prefix_rfl, .nil (offset_eq h.position).ge, h.seen⟩

/-- What is written behind leaves the regions where they are. -/
theorem Since.grow {d' : Draft} {more : List Char} (h : d.Since before rs shown)
    (hposition : d'.position = Position.past {} d'.text.toList)
    (htext : d'.text.toList = d.text.toList ++ more) : d'.Since before rs shown where
  position := hposition
  grown := htext ▸ h.grown.trans (List.prefix_append _ _)
  placed := by
    have hplaced := h.placed.append_text more
    rw [← htext] at hplaced
    refine hplaced.extend ?_
    rw [offset_eq h.position, offset_eq hposition, htext, utf8Length_append]
    exact Nat.le_add_right _ _
  seen := fun s hs => htext ▸ (h.seen s hs).append_text more

theorem Since.append {d' : Draft} {rs' : List Region} {shown' : List Span}
    (h : d.Since before rs shown) (h' : d'.Since d.text.toList rs' shown') :
    d'.Since before (rs ++ rs') shown' where
  position := h'.position
  grown := h.grown.trans h'.grown
  placed := by
    obtain ⟨more, hmore⟩ := h'.grown
    have hplaced := h.placed.append_text more
    rw [hmore, offset_eq h.position] at hplaced
    exact hplaced.append h'.placed
  seen := h'.seen

theorem Since.show {shown' : List Span} (h : d.Since before rs shown)
    (hseen : ∀ s ∈ shown', s.Seen d.text.toList) : d.Since before rs (shown ++ shown') :=
  ⟨h.position, h.grown, h.placed, fun s hs => (List.mem_append.mp hs).elim (h.seen s) (hseen s)⟩

theorem Since.write {text : String} (h : d.Since before rs shown)
    (htext : isOneLine text = true) : (d.write text).Since before rs shown := by
  refine h.grow ?_ String.toList_append
  have hline : '\n' ∉ text.toList := by simpa [isOneLine] using htext
  show _ = Position.past {} (d.text ++ text).toList
  rw [String.toList_append, Position.past_append, ← h.position, Position.past_eq_of_notMem hline,
    utf8Length_toList]
  rfl

theorem Since.newline (h : d.Since before rs shown) : d.newline.Since before rs shown := by
  have htext : d.newline.text.toList = d.text.toList ++ ['\n'] := String.toList_push _
  refine h.grow ?_ htext
  rw [htext, Position.past_append, ← h.position]
  rfl

theorem Since.text_eq {d' : Draft} (h : d'.Since d.text.toList rs shown) :
    ∃ w, d'.text.toList = d.text.toList ++ w := by
  obtain ⟨w, hw⟩ := h.grown
  exact ⟨w, hw.symm⟩

/-- A region ends here that began at `d`. -/
theorem Since.close {d' : Draft} {parts : List Region} {shown' : List Span}
    (h : d.Since before rs shown) (h' : d'.Since d.text.toList parts shown') {r : Region}
    (hspan : r.span = .upTo d.position d'.position.offset)
    (hfits : ∀ w, d'.text.toList = d.text.toList ++ w → r.Fits StringText w)
    (hparts : r.parts = parts) : d'.Since before (rs ++ [r]) shown' := by
  obtain ⟨w, hw⟩ := h'.text_eq
  have hstop : d'.position.offset = utf8Length d.text.toList + utf8Length w := by
    rw [offset_eq h'.position, hw, utf8Length_append]
  have covers : r.span.Covers d'.text.toList w := by
    refine ⟨d.text.toList, [], ?_, ?_⟩
    · rw [List.append_nil, hw]
    · rw [hspan, ← h.position, hstop]
  have hplaced := h'.placed
  have hstart : r.span.start = utf8Length d.text.toList := by
    rw [hspan]
    exact offset_eq h.position
  have hend : r.span.stop = d'.position.offset := by rw [hspan]; rfl
  refine h.append ⟨h'.position, h'.grown, ?_, h'.seen⟩
  rw [← hparts, ← hstart, ← hend] at hplaced
  rw [← hstart, ← hend]
  exact .single covers (hfits w hw) hplaced

/-- The last region may be told as another one. -/
theorem Since.retell {r : Region} (r' : Region) (h : d.Since before (rs ++ [r]) shown)
    (hspan : r'.span = r.span)
    (hlaid : ∀ text, Laid text StringText r → Laid text StringText r') :
    d.Since before (rs ++ [r']) shown where
  position := h.position
  grown := h.grown
  seen := h.seen
  placed := by
    refine ⟨?_, fun x hx => ?_⟩
    · have hordered := h.placed.ordered
      rw [List.map_append, List.map_singleton] at hordered ⊢
      rwa [hspan]
    · rcases List.mem_append.mp hx with hx | hx
      · exact h.placed.laid x (List.mem_append_left _ hx)
      · rw [List.mem_singleton.mp hx]
        exact hlaid _ (h.placed.laid r (List.mem_append_right _ List.mem_cons_self))

/-- A line begins at the end of the draft. -/
def AtLine (before : List Char) (rs : List Region) (shown : List Span) (d : Draft) : Prop :=
  d.Since before rs shown ∧ d.position.bytes = 0

/-- The draft ends with the line feed behind these regions. -/
def Ended (before : List Char) (rs : List Region) (shown : List Span) (d : Draft) : Prop :=
  ∃ d' : Draft, d'.Since before rs shown ∧ d = d'.newline

theorem AtLine.beginsLine (h : d.AtLine before rs shown) : BeginsLine d.text.toList :=
  .of_bytes_eq_zero (h.1.position ▸ h.2)

end Draft

namespace Writer

variable {α : Type} {post : α → Draft → Prop}

theorem since_write {text : String} (htext : isOneLine text = true) :
    Ensures (Draft.Since before rs shown) (write text) fun _ => Draft.Since before rs shown := by
  rintro d hd _ d' run
  cases run
  exact hd.write htext

theorem since_newline :
    Ensures (Draft.Since before rs shown) newline fun _ => Draft.AtLine before rs shown := by
  rintro d hd _ d' run
  cases run
  exact ⟨hd.newline, rfl⟩

theorem position_bind {f : Position → Writer α}
    (h : ∀ d : Draft, d.Since before rs shown →
      Ensures (Draft.Since d.text.toList [] shown) (f d.position) post) :
    Ensures (Draft.Since before rs shown) (position >>= f) post :=
  fun d hd => h d hd d hd.begin

/-- The span of a region is taken where the region ends. -/
theorem spanFrom_bind {f : Span → Writer α} {d : Draft} {parts : List Region}
    {shown' : List Span} (hd : d.Since before rs shown) (region : Span → Region)
    (hspan : ∀ s, (region s).span = s) (hfits : ∀ s w, (region s).Fits StringText w)
    (hparts : ∀ s, (region s).parts = parts)
    (h : ∀ s, Ensures (Draft.Since before (rs ++ [region s]) shown') (f s) post) :
    Ensures (Draft.Since d.text.toList parts shown') (spanFrom d.position >>= f) post :=
  fun d' hd' => h _ d' (hd.close hd' (hspan _) (fun w _ => hfits _ w) (hparts _))

theorem since_ident {name : String} (hname : isOneLine name = true) :
    Ensures (Draft.Since before rs shown) (ident name) fun v =>
      Draft.Since before (rs ++ [v.region]) shown := by
  rintro d hd v d' run
  cases run
  refine hd.close (hd.begin.write hname) rfl (fun w hw => ?_) rfl
  have htext : (d.write name).text.toList = d.text.toList ++ name.toList := String.toList_append
  exact List.append_cancel_left (hw.symm.trans htext)

theorem since_localVar (v : Ident) :
    Ensures (Draft.Since before rs shown) (localVar v) fun x d =>
      x.region = v.region ∧ d.Since before rs shown := by
  rintro d hd x d' run
  cases run
  exact ⟨rfl, hd.position, hd.grown, hd.placed, hd.seen⟩

theorem since_mapM_localVar (v : Option Ident) :
    Ensures (Draft.Since before rs shown) (v.mapM localVar) fun x d =>
      x.toList.map LocalVar.region = v.toList.map Ident.region ∧ d.Since before rs shown := by
  cases v with
  | none => exact .pure fun _ hd => ⟨rfl, hd⟩
  | some v =>
    rw [Option.mapM_some, map_eq_pure_bind]
    exact (since_localVar v).bind fun x => .of_fact fun hx =>
      .pure fun _ hd => ⟨congrArg (fun r => [r]) hx, hd⟩

theorem since_expr (property : Option String) (text : String) :
    Ensures (Draft.Since before rs shown) (expr property text) fun e =>
      Draft.Since before (rs ++ [.expr e]) shown := by
  intro d hd e d' run
  cases hparse : Reading.parse text with
  | error cause =>
    simp only [expr, hparse] at run
    cases run
  | ok reading =>
    rw [run_expr hparse] at run
    cases run
    have hline := Reading.not_newline hparse
    have honeLine : isOneLine text = true := by simpa [isOneLine] using hline
    have hwritten := hd.begin.write honeLine
    have htext : (d.write text).text.toList = d.text.toList ++ (text.toList ++ []) := by
      rw [List.append_nil]
      exact String.toList_append
    have laid := (Reading.laid hparse).place hline rfl d.text.toList [] d.next
    obtain ⟨covers, -, -, -⟩ := Reading.laid hparse
    have hspan := Region.span_place (r := .expr reading.expr) d.position d.next rfl
    have hstop := covers.stop_le
    rw [utf8Length_toList] at hstop
    rw [← hd.position, ← htext] at laid
    refine hd.append ⟨hwritten.position, hwritten.grown,
      ⟨?_, List.forall_mem_singleton.mpr laid⟩, hwritten.seen⟩
    show Span.InOrder _ _ [((Region.expr reading.expr).place d.position d.next).span]
    rw [hspan, ← Draft.offset_eq hd.position]
    exact .single (Nat.le_add_right _ _) (Nat.add_le_add_left covers.start_le_stop _)
      (Nat.add_le_add_left hstop _)

/-- The string that a declaration is deployed under is seen where it is written. -/
theorem seen_nameValue {text : String} {reading : Reading} (h : Reading.parse text = .ok reading)
    (hstring : reading.expr.isString = true) {d : Draft} (hd : d.AtLine before rs shown)
    (first : Nat) {value : Expr}
    (hvalue : value =
      reading.expr.place (((d.write "  ").write "name").write ": ").position first) :
    value.span.Seen (((d.write "  ").write "name").write ": " |>.write text).text.toList := by
  obtain ⟨lead, rest, htext, hlength, hlead⟩ := Reading.exists_quote h hstring
  have hfront : ∀ c ∈ "  name: ".toList ++ lead, c.utf8Size = 1 ∧ c ≠ '\n' := by
    intro c hc
    rcases List.mem_append.mp hc with hc | hc
    · have hkey : "  name: ".toList.all (fun c => c.utf8Size = 1 ∧ c ≠ '\n') = true := by decide
      exact of_decide_eq_true (List.all_eq_true.mp hkey c hc)
    · rcases hlead.eq_of_mem hc with rfl | rfl | rfl <;> decide
  refine ⟨d.text.toList, "  name: ".toList ++ lead, ['\''], rest, ?_, hd.beginsLine, ?_,
    fun hmem => (hfront _ hmem).2 rfl, fun c hc => (hfront c hc).1, by decide, nofun, by decide⟩
  · show (d.text ++ "  " ++ "name" ++ ": " ++ text).toList = _
    simp [htext]
  · have hspan := Region.span_place (r := .expr reading.expr)
      (((d.write "  ").write "name").write ": ").position first rfl
    have hstart : value.span.start = d.position.offset + 2 + 4 + 2 + reading.expr.span.start := by
      rw [hvalue]
      exact congrArg Span.start hspan
    rw [hstart, Draft.offset_eq hd.1.position, ← hlength, utf8Length_append, utf8Length_append]
    have hname : utf8Length "  name: ".toList = 8 := by decide
    omega

theorem seen_property {key text : String} {d d' : Draft} {p : Property Expr}
    (hd : d.AtLine before rs shown) (run : (property key text).run d = .ok (p, d')) :
    ∀ s ∈ p.shown, s.Seen d'.text.toList := by
  have written : (property key text).run d =
      (expr (some key) text >>= fun value => do
        let span ← spanFrom (d.write "  ").position
        newline
        return { span, key, value : Property Expr }).run
          (((d.write "  ").write key).write ": ") := rfl
  rw [written, StateT.run_bind] at run
  cases hparse : Reading.parse text with
  | error cause =>
    simp only [expr, hparse] at run
    cases run
  | ok reading =>
    rw [run_expr hparse] at run
    cases run
    intro s hs
    unfold Property.shown at hs
    split at hs
    next h =>
      obtain ⟨rfl, hstring⟩ := h
      obtain rfl := List.mem_singleton.mp hs
      rw [Expr.isString_place] at hstring
      have seen := (seen_nameValue hparse hstring hd d.next rfl).append_text ['\n']
      rw [← String.toList_push] at seen
      exact seen
    next => cases hs

theorem atLine_property {key : String} (hkey : isOneLine key = true) (text : String) :
    Ensures (Draft.AtLine before rs shown) (property key text) fun p =>
      Draft.AtLine before (rs ++ [.property p]) (shown ++ p.shown) := by
  have laid : Ensures (Draft.Since before rs shown) (property key text) fun p =>
      Draft.AtLine before (rs ++ [.property p]) shown := by
    refine (since_write rfl).bind fun _ => position_bind fun d hd => ?_
    refine (since_write hkey).bind fun _ => (since_write rfl).bind fun _ => ?_
    refine (since_expr (some key) text).bind fun value => ?_
    refine spanFrom_bind hd (fun span => .property { span, key, value }) (fun _ => rfl)
      (fun _ _ => trivial) (fun _ => rfl) fun span => ?_
    exact since_newline.bind fun _ => .pure fun _ h => h
  intro d hd p d' run
  obtain ⟨hsince, hbytes⟩ := laid d hd.1 p d' run
  exact ⟨hsince.show (seen_property hd run), hbytes⟩

theorem since_object {properties : Std.TreeMap String String}
    (hkeys : oneLineKeys properties = true) :
    Ensures (Draft.Since before rs shown) (object properties) fun e =>
      Draft.Since before (rs ++ [.expr e]) (shown ++ e.shown) := by
  refine position_bind fun d hd => (since_write rfl).bind fun _ => since_newline.bind fun _ => ?_
  have step : ∀ pair ∈ properties.toList, ∀ done : List (Property Expr),
      Ensures (Draft.AtLine d.text.toList (done.map .property)
        (shown ++ done.flatMap Property.shown))
        (property pair.1 pair.2)
        fun p => Draft.AtLine d.text.toList ((done ++ [p]).map .property)
          (shown ++ (done ++ [p]).flatMap Property.shown) := by
    rintro ⟨key, text⟩ hpair done
    simp only [List.map_append, List.map_singleton, List.flatMap_append, List.flatMap_singleton,
      ← List.append_assoc]
    exact atLine_property (List.all_eq_true.mp hkeys _ hpair) text
  have written := Ensures.mapM _ step []
  rw [List.flatMap_nil, List.append_nil] at written
  refine written.bind fun ps => ?_
  refine Ensures.imp ?_ (fun _ hd' => hd'.1) fun _ _ h => h
  refine (since_write rfl).bind fun _ => ?_
  rintro d' hd' e d'' run
  cases run
  have h := hd.close (r := .expr (.object ⟨.upTo d.position d'.position.offset, d'.next⟩ ps))
    hd' rfl (fun _ _ h => nomatch h) rfl
  exact ⟨h.position, h.grown, h.placed, h.seen⟩

theorem since_conditional {properties : Std.TreeMap String String}
    (hkeys : oneLineKeys properties = true) (condition : Option String) :
    Ensures (Draft.Since before rs shown) (conditional condition properties) fun b =>
      Draft.Since before (rs ++ [.body b]) (shown ++ b.shown) := by
  cases condition with
  | none =>
    exact (since_object hkeys).bind fun value => .pure fun d hd =>
      hd.retell (.body (.object value)) rfl fun _ => Laid.objectBody
  | some condition =>
    refine position_bind fun d hd => (since_write rfl).bind fun _ => ?_
    refine (since_expr none condition).bind fun condition => (since_write rfl).bind fun _ => ?_
    refine (since_object hkeys).bind fun value => ?_
    have hretell (d' : Draft) (hd' : d'.Since d.text.toList
        ([] ++ [.expr condition] ++ [.expr value]) (shown ++ value.shown)) :
        d'.Since d.text.toList ([] ++ [.expr condition] ++ [.body (.object value)])
          (shown ++ value.shown) :=
      hd'.retell (.body (.object value)) rfl fun _ => Laid.objectBody
    refine Ensures.imp ?_ hretell fun _ _ h => h
    exact spanFrom_bind hd (fun span => .body (.conditional span condition (.object value)))
      (fun _ => rfl) (fun _ _ => trivial) (fun _ => rfl) fun span => .pure fun _ h => h

theorem since_loopVariables {loop : LoopSpec} (hloop : loop.oneLine = true) :
    Ensures (Draft.Since before rs shown) (loopVariables loop) fun vars =>
      Draft.Since before (rs ++ (vars.1.region :: vars.2.toList.map Ident.region)) shown := by
  obtain ⟨hitem, hindex⟩ := Bool.and_eq_true_iff.mp hloop
  unfold loopVariables
  cases hloop : loop.index with
  | none => exact (since_ident hitem).bind fun item => .pure fun _ h => h
  | some index =>
    rw [hloop, Option.all_some] at hindex
    refine (since_write rfl).bind fun _ => (since_ident hitem).bind fun item => ?_
    refine (since_write rfl).bind fun _ => (since_ident hindex).bind fun index => ?_
    refine (since_write rfl).bind fun _ => .pure fun _ h => ?_
    rwa [List.append_assoc] at h

theorem since_body {loop : Option LoopSpec} (hloop : loop.all LoopSpec.oneLine = true)
    {properties : Std.TreeMap String String}
    (hkeys : oneLineKeys properties = true) (condition : Option String) :
    Ensures (Draft.Since before rs shown) (body loop condition properties) fun b =>
      Draft.Since before (rs ++ [.body b]) (shown ++ b.shown) := by
  cases loop with
  | none => exact since_conditional hkeys condition
  | some loop =>
    refine position_bind fun d hd => (since_write rfl).bind fun _ => ?_
    refine (since_loopVariables hloop).bind fun vars => (since_write rfl).bind fun _ => ?_
    refine (since_expr none loop.collection).bind fun collection => ?_
    refine (since_write rfl).bind fun _ => (since_localVar vars.1).bind fun item => ?_
    refine .of_fact fun hitem => (since_mapM_localVar vars.2).bind fun index => ?_
    refine .of_fact fun hindex => (since_conditional hkeys condition).bind fun inner => ?_
    refine (since_write rfl).bind fun _ => ?_
    refine spanFrom_bind hd (fun span => .body (.loop { span, item, index, collection } inner))
      (fun _ => rfl) (fun _ _ => trivial) (fun _ => ?_) fun span => .pure fun _ h => h
    simp only [Region.parts, hitem, hindex, List.nil_append, List.append_assoc, List.cons_append]

/-! ## Declarations -/

/-- A declaration begins with a keyword and its name, and goes on behind it. -/
theorem heading_bind {keyword name tail : String} {f : Position → Ident → Writer α}
    (hkeyword : isOneLine keyword = true) (hsizes : keyword.toList.all (·.utf8Size = 1) = true)
    (hname : isOneLine name = true) (htail : isOneLine tail = true)
    (hlast : tail.toList.getLast? = some ' ')
    (h : ∀ d : Draft, d.Since before rs shown → ∀ v : Ident,
      Ensures (Draft.Since d.text.toList [v.region] (shown ++ [v.span])) (f d.position v) post) :
    Ensures (Draft.AtLine before rs shown) (do
      let start ← position
      write keyword
      let v ← ident name
      write tail
      f start v) post := by
  intro d hd a d' run
  have hkeyword' := hd.1.begin.write hkeyword
  have hident := (since_ident hname) _ hkeyword' _ _ rfl
  have hwritten := hident.write htail
  refine h d hd.1 _ _ (hwritten.show ?_) a d' run
  rw [List.forall_mem_singleton]
  refine ⟨d.text.toList, keyword.toList, name.toList ++ tail.toList, [], ?_, hd.beginsLine, ?_, ?_,
    by simpa using hsizes, ?_, ?_, ?_⟩
  · show (d.text ++ keyword ++ name ++ tail).toList = _
    simp
  · show (d.write keyword).position.offset = _
    rw [Draft.offset_eq hkeyword'.position]
    exact congrArg utf8Length String.toList_append
  · simpa [isOneLine] using hkeyword
  · simp_all [isOneLine]
  · intro hnil
    rw [(List.append_eq_nil_iff.mp hnil).2] at hlast
    cases hlast
  · simp [hlast]

theorem ended_newline : Ensures (Draft.Since before rs shown) newline fun _ =>
    Draft.Ended before rs shown := by
  rintro d hd _ d' run
  cases run
  exact ⟨d, hd, rfl⟩

theorem ended_resource {spec : ResourceSpec} (hspec : spec.oneLine = true) (symbol : SymbolId) :
    Ensures (Draft.AtLine before rs shown) (resource spec symbol) fun r =>
      Draft.Ended before (rs ++ [.resource r]) (shown ++ (Region.resource r).shown) := by
  simp only [ResourceSpec.oneLine, Bool.and_eq_true] at hspec
  obtain ⟨⟨⟨hname, htype⟩, hloop⟩, hkeys⟩ := hspec
  unfold resource
  extract_lets declare
  have hdeclare : ∀ reference, Ensures (Draft.AtLine before rs shown) (declare reference) fun r =>
      Draft.Ended before (rs ++ [.resource r]) (shown ++ (Region.resource r).shown) := by
    intro reference
    refine heading_bind rfl (by decide) hname
      (isOneLine_append (isOneLine_append rfl htype) rfl) (getLast?_append rfl) fun d hd name => ?_
    extract_lets finish
    have hfinish : ∀ u, Ensures (Draft.Since d.text.toList [name.region] (shown ++ [name.span]))
        (finish u) fun r => Draft.Ended before (rs ++ [.resource r])
          (shown ++ (Region.resource r).shown) := by
      intro u
      refine (since_write rfl).bind fun _ => (since_body hloop hkeys _).bind fun body => ?_
      rw [List.append_assoc]
      refine spanFrom_bind hd (fun span => .resource ⟨span, symbol, name, spec.typeText,
        spec.existing, spec.type reference, body⟩) (fun _ => rfl) (fun _ _ => trivial)
        (fun _ => rfl) fun span => ?_
      exact ended_newline.bind fun _ => .pure fun _ h => h
    split
    · exact (since_write rfl).bind hfinish
    · exact hfinish ()
  split
  next => exact Ensures.throw.bind hdeclare
  next reference _ =>
    rw [pure_bind]
    exact hdeclare reference

theorem ended_module {spec : ModuleSpec} (hspec : spec.oneLine = true) (symbol : SymbolId) :
    Ensures (Draft.AtLine before rs shown) (module spec symbol) fun m =>
      Draft.Ended before (rs ++ [.module m]) (shown ++ (Region.module m).shown) := by
  simp only [ModuleSpec.oneLine, Bool.and_eq_true] at hspec
  obtain ⟨⟨⟨hname, hpath⟩, hloop⟩, hkeys⟩ := hspec
  refine heading_bind rfl (by decide) hname
    (isOneLine_append (isOneLine_append rfl hpath) rfl) (getLast?_append rfl) fun d hd name => ?_
  refine (since_body hloop hkeys _).bind fun body => ?_
  rw [List.append_assoc]
  refine spanFrom_bind hd (fun span => .module ⟨span, symbol, name, spec.path, spec.type, body⟩)
    (fun _ => rfl) (fun _ _ => trivial) (fun _ => rfl) fun span => ?_
  exact ended_newline.bind fun _ => .pure fun _ h => h

end Writer

end Preflight
