import Mathlib.Algebra.Ring.Nat
import Semijoin.Proofs.Document.Expansion
import Semijoin.Proofs.Multisearch.Lines

/-!
# The searches of a multi-search body

The lines of a body that are not blank are headers and searches in turn. A body expands exactly when
they come in pairs and the document of every search expands, each on its own; otherwise the first
search that does not is told, or the header that is left over. So two bodies behind each other
expand like each of them alone.
-/

namespace Semijoin.Multisearch

/-- A header and the line of the search behind it, the document on that line, and the counts of its
expansion. -/
structure Search where
  header : Line
  line : Line
  document : Json
  report : Report

namespace Search

/-- The lines that a search is read from. -/
def read (search : Search) : List Line := [search.header, search.line]

/-- The lines that a search is written on: its header as it is, and its expanded document. -/
def written (sentinel : String) (search : Search) : List (List Char) :=
  [search.header.text, (Document.expand sentinel search.document).document.chars .compact 0]

/-- The document is on the line of the search, and it expands with these counts. -/
structure Expands (sentinel : String) (search : Search) : Prop where
  read : Json.ofChars search.line.text = .ok search.document
  expand : (Document.expand sentinel search.document).outcome.result = .ok search.report

end Search

/-- A body holds what some searches are written on, their number and the sums of their counts. -/
structure Gathers (sentinel : String) (searches : List Search) (body : Body) : Prop where
  lines : body.lines = searches.flatMap (Search.written sentinel)
  count : body.searches = searches.length
  graphs : body.report.graphs = (searches.map fun search => search.report.graphs).sum
  chains : body.report.chains = (searches.map fun search => search.report.chains).sum
  clauses : body.report.clauses = (searches.map fun search => search.report.clauses).sum

/-- The search on a line cannot be expanded: there is no document on the line, or the document does
not expand. -/
inductive Line.Fails (sentinel : String) (line : Line) : Failure → Prop
  | notJson {fault : ReadFault} (hread : Json.ofChars line.text = .error fault) :
    Fails sentinel line (.notJson line.number fault)
  | faulty {document : Json} {fault : Fault} (hread : Json.ofChars line.text = .ok document)
    (hexpand : (Document.expand sentinel document).outcome.result = .error fault) :
    Fails sentinel line (.faulty line.number fault)

/-- Lines cannot be expanded from the first one on: the first search fails, or there is a header
without one. -/
inductive Stops (sentinel : String) : List Line → Failure → Prop
  | search {header line : Line} {rest : List Line} {failure : Failure}
    (hfails : line.Fails sentinel failure) : Stops sentinel (header :: line :: rest) failure
  | header (header : Line) : Stops sentinel [header] (.loneHeader header.number)

/-- A failure with more lines in front of it. -/
def Failure.later (count : Nat) : Failure → Failure
  | .notJson line fault => .notJson (count + line) fault
  | .loneHeader line => .loneHeader (count + line)
  | .faulty line fault => .faulty (count + line) fault

/-- Two bodies behind each other. -/
def Body.append (first second : Body) : Body where
  lines := first.lines ++ second.lines
  searches := first.searches + second.searches
  report := first.report.merge second.report

/-- The text of two bodies is the text of both. -/
theorem Body.text_append (first second : Body) :
    (first.append second).text = first.text ++ second.text := by
  simp only [text, append, List.flatMap_append, String.ofList_append]

/-- Searches are gathered in one body only. -/
theorem Gathers.unique {sentinel : String} {searches : List Search} {body other : Body}
    (h : Gathers sentinel searches body) (h' : Gathers sentinel searches other) : body = other := by
  obtain ⟨lines, count, ⟨graphs, chains, clauses⟩⟩ := body
  obtain ⟨lines', count', ⟨graphs', chains', clauses'⟩⟩ := other
  have hlines := h.lines.trans h'.lines.symm
  have hcount := h.count.trans h'.count.symm
  have hgraphs := h.graphs.trans h'.graphs.symm
  have hchains := h.chains.trans h'.chains.symm
  have hclauses := h.clauses.trans h'.clauses.symm
  simp only at hlines hcount hgraphs hchains hclauses
  rw [hlines, hcount, hgraphs, hchains, hclauses]

variable {sentinel : String}

/-- The outcome of a search without its events. -/
theorem result_expandSearch (line : Line) :
    (expandSearch sentinel line).result =
      (Json.ofChars line.text).mapError (.notJson line.number) >>= fun document =>
        (Document.expand sentinel document).outcome.result.mapError (.faulty line.number) >>=
          fun report =>
            .ok ((Document.expand sentinel document).document.chars .compact 0, report) := by
  simp only [expandSearch, Traced.result_bind]
  rfl

/-- A search that expands is written on a line. -/
theorem Search.Expands.result_expandSearch {search : Search} (h : search.Expands sentinel) :
    (expandSearch sentinel search.line).result =
      .ok ((Document.expand sentinel search.document).document.chars .compact 0,
        search.report) := by
  rw [Multisearch.result_expandSearch, h.read]
  change ((Document.expand sentinel search.document).outcome.result.mapError _ >>= _) = _
  rw [h.expand]
  rfl

/-- A line whose search is written on a line has a document that expands. -/
theorem exists_expands_of_expandSearch (header : Line) {line : Line} {text : List Char}
    {report : Report} (h : (expandSearch sentinel line).result = .ok (text, report)) :
    ∃ document, (Search.mk header line document report).Expands sentinel ∧
      text = (Document.expand sentinel document).document.chars .compact 0 := by
  rw [result_expandSearch] at h
  obtain ⟨document, hread, h⟩ := bind_eq_ok h
  obtain ⟨found, hexpand, h⟩ := bind_eq_ok h
  cases h
  exact ⟨document, ⟨eq_ok_of_mapError hread, eq_ok_of_mapError hexpand⟩, rfl⟩

/-- A search fails exactly with the failures of its line. -/
theorem expandSearch_eq_error_iff {line : Line} {failure : Failure} :
    (expandSearch sentinel line).result = .error failure ↔ line.Fails sentinel failure := by
  rw [result_expandSearch]
  constructor
  · intro h
    cases hread : Json.ofChars line.text with
    | error fault =>
      rw [hread] at h
      cases h
      exact .notJson hread
    | ok document =>
      rw [hread] at h
      cases hexpand : (Document.expand sentinel document).outcome.result with
      | error fault =>
        change ((Document.expand sentinel document).outcome.result.mapError _ >>= _) = _ at h
        rw [hexpand] at h
        cases h
        exact .faulty hread hexpand
      | ok report =>
        change ((Document.expand sentinel document).outcome.result.mapError _ >>= _) = _ at h
        rw [hexpand] at h
        cases h
  · intro h
    cases h with
    | notJson hread =>
      rw [hread]
      rfl
    | faulty hread hexpand =>
      rw [hread]
      change ((Document.expand sentinel _).outcome.result.mapError _ >>= _) = _
      rw [hexpand]
      rfl

/-- A header and a search are expanded before the lines behind them. -/
theorem result_expandLines_cons (header line : Line) (rest : List Line) :
    (expandLines sentinel (header :: line :: rest)).result =
      (expandSearch sentinel line).result >>= fun (text, report) =>
        (expandLines sentinel rest).result >>= fun others => .ok {
          lines := header.text :: text :: others.lines
          searches := others.searches + 1
          report := report.merge others.report } := by
  rw [expandLines, Traced.result_bind]
  congr 1
  funext ⟨text, report⟩
  rw [Traced.result_bind]
  rfl

/-- A body that gathers searches gathers one more in front. -/
theorem Gathers.cons {search : Search} {searches : List Search} {body : Body}
    (h : Gathers sentinel searches body) :
    Gathers sentinel (search :: searches) {
      lines := search.header.text ::
        (Document.expand sentinel search.document).document.chars .compact 0 :: body.lines
      searches := body.searches + 1
      report := search.report.merge body.report } where
  lines := by rw [h.lines]; rfl
  count := by rw [h.count, List.length_cons]
  graphs := by rw [List.map_cons, List.sum_cons, ← h.graphs]; rfl
  chains := by rw [List.map_cons, List.sum_cons, ← h.chains]; rfl
  clauses := by rw [List.map_cons, List.sum_cons, ← h.clauses]; rfl

/-- No searches give an empty body. -/
theorem gathers_nil : Gathers sentinel [] ⟨[], 0, .empty⟩ := ⟨rfl, rfl, rfl, rfl, rfl⟩

/-- Searches that expand are gathered in a body. -/
theorem exists_gathers {searches : List Search}
    (h : ∀ search ∈ searches, search.Expands sentinel) :
    ∃ body, (expandLines sentinel (searches.flatMap Search.read)).result = .ok body ∧
      Gathers sentinel searches body := by
  induction searches with
  | nil => exact ⟨_, rfl, gathers_nil⟩
  | cons search rest ih =>
    obtain ⟨hsearch, hrest⟩ := List.forall_mem_cons.mp h
    obtain ⟨others, hothers, hgathers⟩ := ih hrest
    refine ⟨_, ?_, hgathers.cons⟩
    change (expandLines sentinel
      (search.header :: search.line :: rest.flatMap Search.read)).result = _
    rw [result_expandLines_cons, hsearch.result_expandSearch, hothers]
    rfl

/-- Lines that are expanded are those of searches that expand. -/
theorem exists_searches_of_expandLines {lines : List Line} {body : Body}
    (h : (expandLines sentinel lines).result = .ok body) :
    ∃ searches : List Search, lines = searches.flatMap Search.read ∧
      (∀ search ∈ searches, search.Expands sentinel) ∧ Gathers sentinel searches body := by
  induction lines using expandLines.induct generalizing body with
  | case1 =>
    cases h
    exact ⟨[], rfl, List.forall_mem_nil _, gathers_nil⟩
  | case2 header => cases h
  | case3 header line rest ih =>
    rw [result_expandLines_cons] at h
    obtain ⟨⟨text, report⟩, hsearch, h⟩ := bind_eq_ok h
    obtain ⟨others, hothers, h⟩ := bind_eq_ok h
    cases h
    obtain ⟨document, hexpands, rfl⟩ := exists_expands_of_expandSearch header hsearch
    obtain ⟨searches, rfl, hall, hgathers⟩ := ih hothers
    exact ⟨⟨header, line, document, report⟩ :: searches, rfl,
      List.forall_mem_cons.mpr ⟨hexpands, hall⟩, hgathers.cons⟩

/-- Lines behind those of a body expand as they do alone. -/
theorem result_expandLines_append {lines : List Line} {body : Body}
    (h : (expandLines sentinel lines).result = .ok body) (rest : List Line) :
    (expandLines sentinel (lines ++ rest)).result =
      (expandLines sentinel rest).result >>= fun others => .ok (body.append others) := by
  induction lines using expandLines.induct generalizing body with
  | case1 =>
    cases h
    rw [List.nil_append]
    cases (expandLines sentinel rest).result with
    | error failure => rfl
    | ok others =>
      obtain ⟨lines, searches, ⟨graphs, chains, clauses⟩⟩ := others
      simp only [bind, Except.bind, Body.append, Report.merge, Report.empty, List.nil_append,
        Nat.zero_add]
  | case2 header => cases h
  | case3 header line others ih =>
    rw [result_expandLines_cons] at h
    obtain ⟨⟨text, report⟩, hsearch, h⟩ := bind_eq_ok h
    obtain ⟨found, hothers, h⟩ := bind_eq_ok h
    cases h
    rw [List.cons_append, List.cons_append, result_expandLines_cons, hsearch, ih hothers]
    cases (expandLines sentinel rest).result with
    | error failure => rfl
    | ok last =>
      simp only [bind, Except.bind, Body.append, Report.merge, List.cons_append]
      congr 2
      · omega
      · simp only [Nat.add_assoc]

/-- Lines that cannot be expanded begin with searches that expand, and stop behind them. -/
theorem exists_stops_of_expandLines {lines : List Line} {failure : Failure}
    (h : (expandLines sentinel lines).result = .error failure) :
    ∃ (searches : List Search) (rest : List Line),
      lines = searches.flatMap Search.read ++ rest ∧
      (∀ search ∈ searches, search.Expands sentinel) ∧ Stops sentinel rest failure := by
  induction lines using expandLines.induct with
  | case1 => cases h
  | case2 header =>
    cases h
    exact ⟨[], [header], rfl, List.forall_mem_nil _, .header header⟩
  | case3 header line rest ih =>
    rw [result_expandLines_cons] at h
    rcases bind_eq_error h with hsearch | ⟨⟨text, report⟩, hsearch, h⟩
    · exact ⟨[], header :: line :: rest, rfl, List.forall_mem_nil _,
        .search (expandSearch_eq_error_iff.mp hsearch)⟩
    · obtain ⟨document, hexpands, -⟩ := exists_expands_of_expandSearch header hsearch
      rcases bind_eq_error h with hothers | ⟨others, -, h⟩
      · obtain ⟨searches, last, hlines, hall, hstops⟩ := ih hothers
        refine ⟨⟨header, line, document, report⟩ :: searches, last, ?_,
          List.forall_mem_cons.mpr ⟨hexpands, hall⟩, hstops⟩
        rw [hlines]
        rfl
      · cases h

/-- Lines at which an expansion stops are not expanded. -/
theorem Stops.expandLines_eq_error {lines : List Line} {failure : Failure}
    (h : Stops sentinel lines failure) : (expandLines sentinel lines).result = .error failure := by
  cases h with
  | search hfails =>
    rw [result_expandLines_cons, expandSearch_eq_error_iff.mpr hfails]
    rfl
  | header header => rfl

/-- Lines with larger numbers expand to the same body, or fail at a larger number. -/
theorem result_expandLines_later (count : Nat) (lines : List Line) :
    (expandLines sentinel (lines.map (Line.later count))).result =
      (expandLines sentinel lines).result.mapError (Failure.later count) := by
  induction lines using expandLines.induct with
  | case1 => rfl
  | case2 header => rfl
  | case3 header line rest ih =>
    have hsearch : (expandSearch sentinel (line.later count)).result =
        (expandSearch sentinel line).result.mapError (Failure.later count) := by
      rw [result_expandSearch, result_expandSearch]
      change ((Json.ofChars line.text).mapError _ >>= _) = _
      cases Json.ofChars line.text with
      | error fault => rfl
      | ok document =>
        change ((Document.expand sentinel document).outcome.result.mapError _ >>= _) =
          Except.mapError _
            ((Document.expand sentinel document).outcome.result.mapError _ >>= _)
        cases (Document.expand sentinel document).outcome.result <;> rfl
    rw [List.map_cons, List.map_cons, result_expandLines_cons, result_expandLines_cons, hsearch, ih]
    cases (expandSearch sentinel line).result with
    | error failure => rfl
    | ok found => cases (expandLines sentinel rest).result <;> rfl

/-- A body is expanded by its lines. -/
theorem result_expand (text : String) :
    (expand sentinel text).result = (expandLines sentinel (linesOf text.toList)).result := by
  rw [expand, Traced.result_bind]
  cases (expandLines sentinel (linesOf text.toList)).result <;> rfl

/-- No line that searches of a body are written on contains a line feed. -/
theorem Gathers.lineFeed_notMem {searches : List Search} {body : Body}
    (h : Gathers sentinel searches body) {text : List Char}
    (hlines : linesOf text = searches.flatMap Search.read) : ∀ line ∈ body.lines, '\n' ∉ line := by
  intro line hline
  rw [h.lines] at hline
  obtain ⟨search, hsearch, hline⟩ := List.mem_flatMap.mp hline
  rcases List.mem_cons.mp hline with rfl | hline
  · have hheader : search.header ∈ linesOf text := by
      rw [hlines]
      exact List.mem_flatMap.mpr ⟨search, hsearch, List.mem_cons_self⟩
    exact lineFeed_notMem_of_mem_linesOf hheader
  · rw [List.mem_singleton.mp hline]
    exact Json.lineFeed_notMem_chars 0 _

/-- **Expanding multi-search bodies.** Take the lines of a text that are not blank, each trimmed and
with its number. The text expands to a body exactly when these lines are those of searches that each
expand, and the body holds what these are written on and the sums of their counts. It fails exactly
when searches that expand are followed by one that does not, or by a header without one, and tells
the number of that line. The lines of a body are those of its text, two for each search. When a text
that expands is empty or ends with a line feed, another one behind it expands as it does alone,
failures at larger line numbers. -/
theorem expand_pairs (sentinel text : String) :
    Numbered text.toList (linesOf text.toList) ∧
    (∀ body, (expand sentinel text).result = .ok body ↔
      ∃ searches : List Search, linesOf text.toList = searches.flatMap Search.read ∧
        (∀ search ∈ searches, search.Expands sentinel) ∧ Gathers sentinel searches body) ∧
    (∀ failure, (expand sentinel text).result = .error failure ↔
      ∃ (searches : List Search) (rest : List Line),
        linesOf text.toList = searches.flatMap Search.read ++ rest ∧
        (∀ search ∈ searches, search.Expands sentinel) ∧ Stops sentinel rest failure) ∧
    (∀ body, (expand sentinel text).result = .ok body →
      body.text.toList.splitOn '\n' = body.lines ++ [[]] ∧
      body.lines.length = 2 * body.searches ∧
      ((text.toList = [] ∨ text.toList.getLast? = some '\n') → ∀ second,
        (∀ others, (expand sentinel second).result = .ok others →
          (expand sentinel (text ++ second)).result = .ok (body.append others) ∧
          (body.append others).text = body.text ++ others.text) ∧
        ∀ failure, (expand sentinel second).result = .error failure →
          (expand sentinel (text ++ second)).result =
            .error (failure.later (text.toList.count '\n')))) := by
  simp only [result_expand]
  refine ⟨numbered_linesOf _, fun body => ⟨exists_searches_of_expandLines, ?_⟩,
    fun failure => ⟨exists_stops_of_expandLines, ?_⟩, fun body hbody => ⟨?_, ?_, ?_⟩⟩
  · rintro ⟨searches, hlines, hall, hgathers⟩
    obtain ⟨found, hfound, hfoundGathers⟩ := exists_gathers hall
    rw [hlines, hfound, hfoundGathers.unique hgathers]
  · rintro ⟨searches, rest, hlines, hall, hstops⟩
    obtain ⟨found, hfound, -⟩ := exists_gathers hall
    rw [hlines, result_expandLines_append hfound, hstops.expandLines_eq_error]
    rfl
  · obtain ⟨searches, hlines, -, hgathers⟩ := exists_searches_of_expandLines hbody
    rw [Body.text, String.toList_ofList]
    exact Text.splitOn_flatMap_ended (hgathers.lineFeed_notMem hlines)
  · obtain ⟨searches, -, -, hgathers⟩ := exists_searches_of_expandLines hbody
    have htwo (search : Search) : (search.written sentinel).length = 2 := rfl
    rw [hgathers.lines, hgathers.count, List.length_flatMap]
    simp only [htwo, List.map_const', List.sum_replicate_nat]
    omega
  · intro hended second
    rw [String.toList_append, linesOf_append hended, result_expandLines_append hbody,
      result_expandLines_later]
    constructor
    · intro others hothers
      rw [hothers]
      exact ⟨rfl, body.text_append others⟩
    · intro failure hfailure
      rw [hfailure]
      rfl

/-- An empty header, a line with nothing but a carriage return, and a search with a relation. -/
def relatedBody : List Char :=
  ['[', ']', '\n', '\r', '\n'] ++
    (Document.relationHost [("indices", .string "b"), ("path", .string "id")]
      [("indices", .string "a"), ("path", .string "to_b")]).chars .compact 0 ++ ['\n']

/-- Behind this body a second search is expanded, and one that is cut off is told with the number of
its line among all lines. -/
theorem expand_relatedBody :
    (expand ".filterjoin" (String.ofList relatedBody ++ "[]\n[1]")).result = .ok ⟨[['[', ']'],
      (Json.array [(Join.resolved "to_b" (Endpoint.ofIndex "b" "id").toTarget []).toJson]).chars
        .compact 0, ['[', ']'], ['[', '1', ']']], 2, ⟨0, 1, 1⟩⟩ ∧
    (expand ".filterjoin" (String.ofList relatedBody ++ "[]\n\n[")).result =
      .error (.notJson 6 ⟨.cutArray, ⟨1, 1⟩⟩) := by
  have hbody : (expand ".filterjoin" (String.ofList relatedBody)).result = .ok ⟨[['[', ']'],
      (Json.array [(Join.resolved "to_b" (Endpoint.ofIndex "b" "id").toTarget []).toJson]).chars
        .compact 0], 1, ⟨0, 1, 1⟩⟩ := by
    decide +kernel
  have hended : (String.ofList relatedBody).toList.getLast? = some '\n' := by decide +kernel
  have hsecond : (expand ".filterjoin" "[]\n[1]").result =
      .ok ⟨[['[', ']'], ['[', '1', ']']], 1, .empty⟩ := by
    decide +kernel
  have hcut : (expand ".filterjoin" "[]\n\n[").result =
      .error (.notJson 3 ⟨.cutArray, ⟨1, 1⟩⟩) := by
    decide +kernel
  have hcount : (String.ofList relatedBody).toList.count '\n' = 3 := by decide +kernel
  obtain ⟨-, -, -, hexpands⟩ := expand_pairs ".filterjoin" (String.ofList relatedBody)
  obtain ⟨-, -, hbehind⟩ := hexpands _ hbody
  have hwhole := ((hbehind (.inr hended) _).1 _ hsecond).1
  have hfailure := (hbehind (.inr hended) _).2 _ hcut
  rw [hcount] at hfailure
  exact ⟨hwhole, hfailure⟩

end Semijoin.Multisearch
