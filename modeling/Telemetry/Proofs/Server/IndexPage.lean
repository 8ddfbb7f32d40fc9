import Telemetry.Proofs.Metric.TypedTexts
import Telemetry.Proofs.Service.StoredMetrics
import Telemetry.Server.Answer

/-!
What the page of all metrics tells. Whoever reads a page tag by tag finds the rows of its table and the texts of
their cells, if no text has a mark of its own; and no metric that a store lists has one. So a page shows exactly
what is listed, and two listings with one page are the same.
-/
namespace Telemetry

theorem Text.split_append {α : Type} [DecidableEq α] (sep : α) (as bs : List α) :
    split sep (as ++ sep :: bs) = split sep as ++ split sep bs := by
  induction as with
  | nil => exact split_cons_self sep bs
  | cons a as ih =>
    by_cases ha : a = sep
    · subst ha
      rw [List.cons_append, split_cons_self, split_cons_self, ih, List.cons_append]
    · obtain ⟨piece, rest, hfront, hcons⟩ := split_cons_of_ne sep ha as
      obtain ⟨piece', rest', hwhole, hcons'⟩ := split_cons_of_ne sep ha (as ++ sep :: bs)
      rw [ih, hfront, List.cons_append] at hwhole
      cases hwhole
      rw [List.cons_append, hcons', hcons, List.cons_append]

namespace Page

/-- What a reader of tables takes notice of: where a row begins, and the cells with their texts. -/
inductive Token where
  | row
  | cell (text : String)
deriving DecidableEq

/-- A tag and the text behind it, up to the next tag. -/
def token? (piece : List Char) : Option Token :=
  match Text.splitFirst? '>' piece with
  | none => none
  | some (tag, text) =>
    if tag = "tr".toList then some .row
    else if tag = "td".toList then some (.cell (String.ofList text)) else none

def tokens (page : String) : List Token := (Text.split '<' page.toList).filterMap token?

def Token.text? : Token → Option String
  | row => none
  | cell text => some text

/-- The texts in the rows of a page. A row of headings has no cell and is left out. -/
def rows (page : String) : List (List String) :=
  ((Text.split .row (tokens page)).map (List.filterMap Token.text?)).filter (· ≠ [])

def cells (m : Metric) : List String := [m.kind.text, m.name, m.value.text]

section Reading
variable {m : Metric} {ms : List Metric}

theorem tokens_append {a b : String} {cs : List Char} (hb : b.toList = '<' :: cs) :
    tokens (a ++ b) = tokens a ++ tokens b := by
  have hstart : token? [] = none := rfl
  simp only [tokens, String.toList_append, hb, Text.split_append, Text.split_cons_self,
    List.filterMap_append, List.filterMap_cons_none hstart]

theorem toList_cell (text : String) :
    (cell text).toList = '<' :: ("td>".toList ++ (text.toList ++ "</td>".toList)) := by
  simp [cell, String.toList_append]

theorem tokens_cell {text : String} (h : '<' ∉ text.toList) : tokens (cell text) = [.cell text] := by
  have hmark : '<' ∉ "td>".toList ++ text.toList := by simp [h]
  have hsplit : Text.split '<' (cell text).toList = [[], "td>".toList ++ text.toList, "/td>".toList] := by
    have hend : "</td>".toList = '<' :: "/td>".toList := rfl
    have hclosing : Text.split '<' "/td>".toList = ["/td>".toList] := by decide
    rw [toList_cell, Text.split_cons_self, ← List.append_assoc, hend, Text.split_append_cons _ hmark, hclosing]
  have hopening : Text.splitFirst? '>' ("td>".toList ++ text.toList) = some ("td".toList, text.toList) := rfl
  have htoken : token? ("td>".toList ++ text.toList) = some (.cell text) := by
    rw [token?, hopening]
    simp
  have hclosing : token? "/td>".toList = none := by decide
  have hstart : token? [] = none := rfl
  rw [tokens, hsplit, List.filterMap_cons_none hstart, List.filterMap_cons_some htoken,
    List.filterMap_cons_none hclosing, List.filterMap_nil]

theorem tokens_row (h : ∀ text ∈ cells m, '<' ∉ text.toList) :
    tokens (row m) = .row :: (cells m).map .cell := by
  obtain ⟨hkind, hname, hvalue, -⟩ : '<' ∉ m.kind.text.toList ∧ '<' ∉ m.name.toList ∧
      '<' ∉ m.value.text.toList ∧ True := by simpa [cells] using h
  have hbegin : tokens "<tr>" = [.row] := by decide
  have hend : tokens "</tr>\n" = [] := by decide
  rw [row, tokens_append rfl, tokens_append (toList_cell _), tokens_append (toList_cell _),
    tokens_append (toList_cell _), tokens_cell hkind, tokens_cell hname, tokens_cell hvalue, hbegin, hend]
  rfl

theorem toList_row (m : Metric) : ∃ cs, (row m).toList = '<' :: cs := by
  simp [row, String.toList_append]

theorem tokens_rows (h : ∀ m ∈ ms, ∀ text ∈ cells m, '<' ∉ text.toList) :
    (∃ cs, (String.join (ms.map row) ++ foot).toList = '<' :: cs) ∧
      tokens (String.join (ms.map row) ++ foot) = ms.flatMap fun m => .row :: (cells m).map .cell := by
  induction ms with
  | nil =>
    rw [List.map_nil, String.join_nil, String.empty_append]
    exact ⟨⟨_, rfl⟩, by decide⟩
  | cons m ms ih =>
    obtain ⟨hm, hms⟩ := List.forall_mem_cons.1 h
    obtain ⟨⟨cs, hrest⟩, ih⟩ := ih hms
    obtain ⟨front, hrow⟩ := toList_row m
    rw [List.map_cons, String.join_cons, String.append_assoc]
    refine ⟨⟨front ++ '<' :: cs, by rw [String.toList_append, hrow, hrest, List.cons_append]⟩, ?_⟩
    rw [tokens_append hrest, tokens_row hm, ih, List.flatMap_cons]

theorem tokens_render (h : ∀ m ∈ ms, ∀ text ∈ cells m, '<' ∉ text.toList) :
    tokens (render ms) = .row :: ms.flatMap fun m => .row :: (cells m).map .cell := by
  obtain ⟨⟨cs, hrest⟩, hrows⟩ := tokens_rows h
  have hhead : tokens head = [.row] := by decide +kernel
  rw [render, String.append_assoc, tokens_append hrest, hhead, hrows, List.singleton_append]

theorem split_rows (before : List Token) (hbefore : .row ∉ before) (ms : List Metric) :
    Text.split .row (before ++ ms.flatMap fun m => .row :: (cells m).map .cell) =
      before :: ms.map fun m => (cells m).map .cell := by
  induction ms generalizing before with
  | nil => rw [List.flatMap_nil, List.append_nil, Text.split_of_not_mem _ hbefore, List.map_nil]
  | cons m ms ih =>
    rw [List.flatMap_cons, List.cons_append, Text.split_append_cons _ hbefore, ih _ (by simp), List.map_cons]

theorem rows_render (h : ∀ m ∈ ms, ∀ text ∈ cells m, '<' ∉ text.toList) :
    rows (render ms) = ms.map cells := by
  have hcells : ∀ m, ((cells m).map Token.cell).filterMap Token.text? = cells m := fun m => rfl
  have hsplit : Text.split .row (tokens (render ms)) =
      [] :: [] :: ms.map fun m => (cells m).map .cell := by
    rw [tokens_render h, Text.split_cons_self]
    exact congrArg ([] :: ·) (split_rows [] List.not_mem_nil ms)
  have hfilter : (ms.map cells).filter (· ≠ []) = ms.map cells :=
    List.filter_eq_self.2 (by simp [cells])
  rw [rows, hsplit, List.map_cons, List.map_cons, List.map_map, List.filter_cons_of_neg (by simp),
    List.filter_cons_of_neg (by simp), ← hfilter]
  simp only [Function.comp_def, hcells]

theorem row_eq (m : Metric) : row m = "<tr>" ++ String.join ((cells m).map cell) ++ "</tr>\n" := by
  simp [row, cells, String.join_cons, String.append_assoc]

theorem render_congr {ms' : List Metric} (h : ms.map cells = ms'.map cells) : render ms = render ms' := by
  have hrows : ∀ ms : List Metric, ms.map row =
      (ms.map cells).map fun texts => "<tr>" ++ String.join (texts.map cell) ++ "</tr>\n" := by
    intro ms
    rw [List.map_map]
    exact List.map_congr_left fun m _ => row_eq m
  rw [render, render, hrows ms, hrows ms', h]

end Reading

/-- A character that would have to be escaped. -/
def isMarkup (c : Char) : Bool := c == '<' || c == '>' || c == '&'

theorem not_isMarkup_of_mem_cells {m : Metric} (h : m.WellFormed) {text : String} (htext : text ∈ cells m)
    {c : Char} (hc : c ∈ text.toList) : isMarkup c = false := by
  have hkind : ∀ k : Kind, ∀ c ∈ k.text.toList, isMarkup c = false := by
    intro k
    cases k <;> simp [Kind.text, isMarkup]
  have hother : isMarkup c → isNameRest c = false ∧ Binary64.isTextChar c = false := by
    intro hmark
    obtain (rfl | rfl) | rfl : (c = '<' ∨ c = '>') ∨ c = '&' := by simpa [isMarkup] using hmark
    all_goals decide
  obtain rfl | rfl | rfl : text = m.kind.text ∨ text = m.name ∨ text = m.value.text := by
    simpa [cells] using htext
  · exact hkind m.kind c hc
  · refine Bool.eq_false_iff.2 fun hmark => ?_
    exact Bool.false_ne_true ((hother hmark).1.symm.trans (isNameRest_of_mem h.name hc))
  · refine Bool.eq_false_iff.2 fun hmark => ?_
    exact Bool.false_ne_true ((hother hmark).2.symm.trans (Value.isTextChar_of_mem_text h.finite hc))

theorem rows_render_of_wellFormed {ms : List Metric} (h : ∀ m ∈ ms, m.WellFormed) :
    rows (render ms) = ms.map cells := by
  refine rows_render fun m hm text htext hmark => ?_
  have hplain := not_isMarkup_of_mem_cells (h m hm) htext hmark
  cases hplain

end Page

theorem Row.toMetric_eq_ok {r : Row} {m : Metric} (h : r.toMetric = .ok m) :
    r.type = m.kind.text ∧ r.name = m.name ∧ m.WellFormed := by
  obtain ⟨type, name, int, float⟩ := r
  cases hkind : Kind.ofText? type with
  | none => simp [toMetric, hkind] at h
  | some kind =>
    obtain ⟨v, rfl, hm⟩ : ∃ v : Value, v.kind = kind ∧ Metric.withValue name v = .ok m := by
      cases kind with
      | counter =>
        cases int with
        | none => simp [toMetric, hkind] at h
        | some n =>
          refine ⟨.counter n, rfl, ?_⟩
          cases hm : Metric.withValue name (.counter n) with
          | error e => simp [toMetric, hkind, hm] at h
          | ok m' => simpa [toMetric, hkind, hm] using h
      | gauge =>
        cases float with
        | none => simp [toMetric, hkind] at h
        | some x =>
          refine ⟨.gauge x, rfl, ?_⟩
          cases hm : Metric.withValue name (.gauge x) with
          | error e => simp [toMetric, hkind, hm] at h
          | ok m' => simpa [toMetric, hkind, hm] using h
    obtain ⟨rfl, hwell⟩ := Metric.withValue_eq_ok_iff.1 hm
    exact ⟨Kind.text_of_ofText? hkind, rfl, hwell⟩

theorem Table.keys_of_all {t : Table} {ms : List Metric} (h : t.all = .ok ms) :
    (t.map fun r => (r.type, r.name)) = (ms.map fun m => (m.kind.text, m.name)) ∧
      ∀ m ∈ ms, m.WellFormed := by
  induction t generalizing ms with
  | nil =>
    cases h
    exact ⟨rfl, nofun⟩
  | cons r t ih =>
    simp only [all, List.mapM_cons, bind, Except.bind, pure, Except.pure] at h
    split at h
    · cases h
    · next m hm =>
      split at h
      · cases h
      · next rest hrest =>
        cases h
        obtain ⟨htype, hname, hwell⟩ := Row.toMetric_eq_ok hm
        obtain ⟨hkeys, hms⟩ := ih hrest
        rw [List.map_cons, List.map_cons, hkeys, htype, hname]
        exact ⟨rfl, List.forall_mem_cons.2 ⟨hwell, hms⟩⟩

theorem Host.exists_lists {h : Host} (hstore : h.store.IsEmpty) (hcalls : h.calls = [])
    (events : List Host.Event) : ∃ ms, (h.run events).store.Lists ms := by
  have hsound : h.Sound [] := ⟨.nil, hstore.holds, by simp [hcalls]⟩
  obtain ⟨l, -, hl⟩ := hsound.run events
  exact ⟨_, hl.holds.lists hl.valid⟩

namespace Store
variable {s : Store} {ms : List Metric}

theorem Lists.wellFormed (h : s.Lists ms) : ∀ m ∈ ms, m.WellFormed := by
  intro m hm
  refine ⟨isName_iff.2 (h.names m hm), ?_⟩
  cases hv : m.value with
  | counter n => rfl
  | gauge x => exact h.readings m hm x hv

/-- What a store lists that can come about: one that has started empty, whatever has happened since, or a
table of a database in the order of its keys, whoever has written its rows. -/
inductive Listing : Store → List Metric → Prop
  | run {h : Host} (hstore : h.store.IsEmpty) (hcalls : h.calls = []) (events : List Host.Event)
      {ms : List Metric} (hlist : Service.list backend (h.run events).store = .ok ms) :
      Listing (h.run events).store ms
  | rows {t : Table} (horder : t.Pairwise fun a b => a.lt b) {ms : List Metric}
      (hlist : Service.list backend (.table t) = .ok ms) : Listing (.table t) ms

theorem all_of_list (h : Service.list backend s = .ok ms) : backend.all s = .ok ms := by
  cases hall : backend.all s with
  | error e => simp [Service.list, hall, Except.mapError] at h
  | ok ms' => simpa [Service.list, hall, Except.mapError] using h

theorem precedes_of_rows {t : Table} (horder : t.Pairwise fun a b => a.lt b)
    (hkeys : (t.map fun r => (r.type, r.name)) = ms.map fun m => (m.kind.text, m.name))
    (hms : ∀ m ∈ ms, m.WellFormed) : ms.Pairwise Metric.Precedes := by
  have hpairs : (t.map fun r => (r.type, r.name)).Pairwise
      fun a b => a.1 < b.1 ∨ a.1 = b.1 ∧ a.2 < b.2 :=
    List.pairwise_map.2 (horder.imp fun hlt => Row.lt_iff.1 hlt)
  rw [hkeys, List.pairwise_map] at hpairs
  refine hpairs.imp_of_mem fun {a b} ha hb hlt => Metric.precedes_of_lt (hms a ha) (hms b hb) ?_
  exact Key.lt_iff.2 (hlt.imp Kind.text_lt_text.1 fun ⟨hkind, hname⟩ => ⟨Kind.text_inj.1 hkind, hname⟩)

theorem Listing.all (h : Listing s ms) : backend.all s = .ok ms := by
  cases h with
  | run hstore hcalls events hlist => exact all_of_list hlist
  | rows horder hlist => exact all_of_list hlist

theorem Listing.spec (h : Listing s ms) :
    (s.rows.map fun r => (r.type, r.name)) = (ms.map fun m => (m.kind.text, m.name)) ∧
      ms.Pairwise Metric.Precedes ∧ ∀ m ∈ ms, m.WellFormed := by
  have hall := h.all
  cases h with
  | run hstore hcalls events _ =>
    obtain ⟨ms', hlists⟩ := Host.exists_lists hstore hcalls events
    obtain rfl := Except.ok.inj (hlists.all.symm.trans hall)
    exact ⟨hlists.stored, hlists.order, hlists.wellFormed⟩
  | rows horder _ =>
    obtain ⟨hkeys, hms⟩ := Table.keys_of_all hall
    exact ⟨hkeys, precedes_of_rows horder hkeys hms, hms⟩

/-- Of a store with these metrics a page shows each in a row of its own and in order, and nothing that would
have to be escaped. -/
structure Shows (s : Store) (ms : List Metric) (page : String) : Prop where
  rows : Page.rows page = ms.map Page.cells
  stored : (s.rows.map fun r => [r.type, r.name]) = (Page.rows page).map (List.take 2)
  order : ms.Pairwise Metric.Precedes
  plain : ∀ m ∈ ms, ∀ c ∈ m.name.toList ++ m.value.text.toList, c ≠ '<' ∧ c ≠ '>' ∧ c ≠ '&'

theorem Listing.shows (h : Listing s ms) : Shows s ms (Page.render ms) := by
  obtain ⟨hkeys, horder, hms⟩ := h.spec
  have hrows := Page.rows_render_of_wellFormed hms
  refine ⟨hrows, ?_, horder, fun m hm c hc => ?_⟩
  · have hpairs := congrArg (List.map fun key : String × String => [key.1, key.2]) hkeys
    rw [List.map_map, List.map_map] at hpairs
    rw [hrows, List.map_map]
    exact hpairs
  · have hplain : Page.isMarkup c = false := by
      rcases List.mem_append.1 hc with hc | hc
      · exact Page.not_isMarkup_of_mem_cells (hms m hm) (by simp [Page.cells]) hc
      · exact Page.not_isMarkup_of_mem_cells (hms m hm) (by simp [Page.cells]) hc
    simpa [Page.isMarkup, and_assoc] using hplain

/-- The page of what a store lists shows the metrics, one in each row, with kind, name and value; a store that
has started empty always lists some; and two pages are the same only if they show the same. -/
theorem page_unambiguous :
    (∀ h : Host, h.store.IsEmpty → h.calls = [] → ∀ events, ∃ ms, Listing (h.run events).store ms) ∧
    (∀ s ms, Listing s ms → Shows s ms (Page.render ms)) ∧
    ∀ s ms s' ms', Listing s ms → Listing s' ms' →
      (Page.render ms = Page.render ms' ↔ ms.map Page.cells = ms'.map Page.cells) := by
  refine ⟨fun h hstore hcalls events => ?_, fun s ms h => h.shows, fun s ms s' ms' h h' => ?_⟩
  · obtain ⟨ms, hlists⟩ := Host.exists_lists hstore hcalls events
    have hlist : Service.list backend (h.run events).store = .ok ms := by
      rw [Service.list, hlists.all]
      rfl
    exact ⟨ms, .run hstore hcalls events hlist⟩
  · refine ⟨fun hpages => ?_, Page.render_congr⟩
    rw [← h.shows.rows, ← h'.shows.rows, hpages]

/-- Rows that others have written, one of them with a reading beside its total. -/
def writtenRows : Table :=
  [⟨"counter", "hits", some 5, some .nan⟩, ⟨"gauge", "load", none, some (.zero false)⟩]

def sameDump : Disk := ⟨[(["dump"], some (.file (Bytes.ofText "load:gauge:0\nhits:counter:5\n")))]⟩

/-- The rows and the restored dump make one page, and a new store makes another, without rows. -/
theorem page_unambiguous_writtenRows : ∃ written restored fresh,
    Listing (.table writtenRows) written ∧
    Listing (Host.newHost.run [.disturb sameDump, .restore]).store restored ∧
    Listing (Host.newHost.run []).store fresh ∧
    Page.rows (Page.render written) = [["counter", "hits", "5"], ["gauge", "load", "0"]] ∧
    Page.rows (Page.render fresh) = [] ∧
    Page.render written = Page.render restored ∧ Page.render written ≠ Page.render fresh := by
  obtain ⟨hlists, hshows, hpages⟩ := page_unambiguous
  have hcells : ∀ {s ms} (texts : List (List String)), Listing s ms →
      (backend.all s).map (List.map Page.cells) = .ok texts → ms.map Page.cells = texts := by
    intro s ms texts h heval
    rw [h.all] at heval
    exact Except.ok.inj heval
  have hwritten : Listing (.table writtenRows) [⟨"hits", .counter 5⟩, ⟨"load", .gauge (.zero false)⟩] :=
    .rows (by decide +kernel) (by decide +kernel)
  obtain ⟨restored, hrestored⟩ := hlists Host.newHost (.file ["dump"]) rfl [.disturb sameDump, .restore]
  obtain ⟨fresh, hfresh⟩ := hlists Host.newHost (.file ["dump"]) rfl []
  have hshown := hcells [["counter", "hits", "5"], ["gauge", "load", "0"]] hwritten (by decide +kernel)
  have hshown' := hcells [["counter", "hits", "5"], ["gauge", "load", "0"]] hrestored (by decide +kernel)
  have hshown'' := hcells [] hfresh rfl
  refine ⟨_, restored, fresh, hwritten, hrestored, hfresh, (hshows _ _ hwritten).rows.trans hshown,
    (hshows _ _ hfresh).rows.trans hshown'', ?_, fun hsame => ?_⟩
  · exact (hpages _ _ _ _ hwritten hrestored).2 (hshown.trans hshown'.symm)
  · have heq := (hpages _ _ _ _ hwritten hfresh).1 hsame
    rw [hshown, hshown''] at heq
    cases heq

end Store
end Telemetry
