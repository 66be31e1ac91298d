import Preflight.Proofs.Layout.OwnText

/-! # Lines that stand in a file

What is laid in a line is laid in any file that the line stands in, once its spans are moved to
where the line begins. -/

namespace Preflight
set_option autoImplicit false

/-- A string stands between its quotes, on one line and in a text of its own. -/
def StringText (w : List Char) (e : Expr) : Prop :=
  e.isString = true → '\n' ∉ w ∧ OwnText w e

namespace Region

/-- Whether the region was read from a line. -/
def isRead : Region → Bool
  | property _ | expr _ | name _ _ => true
  | resource _ | module _ | body _ => false

/-- A region that was read from a line, where the line stands in a file. -/
def place (p : Position) (first : Nat) : Region → Region
  | property q => property ⟨q.span.shift p, q.key, q.value.place p first⟩
  | expr e => expr (e.place p first)
  | name span text => name (span.shift p) text
  | r => r

variable {p : Position} {first : Nat} {r : Region}

theorem span_place (p : Position) (first : Nat) (h : r.isRead = true) :
    (r.place p first).span = r.span.shift p := by
  cases r with
  | expr e =>
    show (e.place p first).node.span = _
    rw [Expr.place, Expr.node_map]
    rfl
  | property | name => rfl
  | _ => cases h

theorem regions_place (e : Expr) :
    (e.place p first).regions = e.regions.map (Region.place p first) := by
  rcases e with _ | _ | _ | _ | _ | _ | ⟨n, ps⟩ | _ | _ | ⟨_, _ | _, _, _⟩ | _ | _ | _ |
    ⟨n, item, index, collection, body⟩ | ⟨n, params, body⟩
  case object =>
    simp [Expr.place, Expr.map, Expr.regions, Expr.mapProperties_eq_map, Region.place]
  case loop => cases index <;> rfl
  case lambda =>
    show (params.map _).map LocalVar.region ++ [_] = (params.map LocalVar.region ++ [_]).map _
    rw [List.map_map, List.map_append, List.map_map]
    rfl
  all_goals
    simp [Expr.place, Expr.map, Expr.regions, Expr.children, Expr.mapAll_eq_map, Region.place]

theorem parts_place (p : Position) (first : Nat) (h : r.isRead = true) :
    (r.place p first).parts = r.parts.map (Region.place p first) := by
  cases r with
  | expr e => exact regions_place e
  | property | name => rfl
  | _ => cases h

theorem isRead_parts (h : r.isRead = true) : ∀ x ∈ r.parts, x.isRead = true := by
  cases r with
  | expr e =>
    rcases e with _ | _ | _ | _ | _ | _ | _ | _ | _ | _ | _ | _ | _ | _ | _
    all_goals simp [parts, Expr.regions, LocalVar.region, isRead, or_imp, forall_and]
  | property | name => simp [parts, isRead]
  | _ => cases h

end Region

theorem Expr.isString_place (p : Position) (first : Nat) (e : Expr) :
    (e.place p first).isString = e.isString := by
  rcases e with _ | _ | _ | _ | _ | _ | _ | _ | _ | ⟨_, _ | _, _, _⟩ | _ | _ | _ | _ | _ <;> rfl

theorem StringText.of_ownText {w : List Char} {e : Expr} (hline : '\n' ∉ w) (h : OwnText w e)
    (p : Position) (first : Nat) : StringText w (e.place p first) := by
  have herase : (e.place p first).erase = e.erase := Expr.map_map _ _ e
  have hstring := Expr.isString_place p first e
  intro hplaced
  refine ⟨hline, fun m hm => ?_, fun _ => h.quoted (hstring ▸ hplaced)⟩
  rw [herase]
  exact h.alone m hm

/-- What is laid in a line is laid where the line stands in a file. -/
theorem Laid.place {line : List Char} {r : Region} (h : Laid line OwnText r) (hline : '\n' ∉ line)
    (hread : r.isRead = true) (before after : List Char) (first : Nat) :
    Laid (before ++ (line ++ after)) StringText (r.place (Position.past {} before) first) := by
  induction h with
  | @intro r w covers fits ordered _ ih =>
    have hspan := Region.span_place (.past {} before) first hread
    have hparts := Region.parts_place (.past {} before) first hread
    refine .intro (w := w) ?_ ?_ ?_ ?_
    · rw [hspan]
      exact covers.shift hline before after
    · cases r with
      | expr e =>
        refine StringText.of_ownText (fun hmem => hline ?_) fits _ _
        obtain ⟨front, rest, rfl, -⟩ := covers
        exact List.mem_append_right _ (List.mem_append_left _ hmem)
      | name => exact fits
      | property => trivial
      | _ => cases hread
    · have hspans : (r.place (Position.past {} before) first).parts.map Region.span =
          (r.parts.map Region.span).map (Span.shift (Position.past {} before)) := by
        rw [hparts, List.map_map, List.map_map]
        exact List.map_congr_left fun x hx => Region.span_place _ _ (Region.isRead_parts hread x hx)
      rw [hspan, hspans]
      exact ordered.shift _
    · rw [hparts, List.forall_mem_map]
      exact fun x hx => ih x hx (Region.isRead_parts hread x hx)

end Preflight
