import Semijoin.Proofs.Document.Search
import Semijoin.Proofs.Pointer.Text

/-!
# Texts name places

A report of the hosts in a document shows their places as texts. Main statement: different places of
a document have different texts, except that the whole document and the member of it that has the
empty key both read as a slash. These two are never hosts in one document, so every host is told by
the text of its place.
-/

namespace Semijoin

open Json

namespace Host

variable {labels : List Label} {document : Json} {hosts : List Host}

/-- A search that is not refused finds the hosts with its labels. -/
theorem found_of_locate_eq_ok (hordered : document.IsOrdered) (hdistinct : labels.Nodup)
    (h : locate labels document = .ok hosts) : Found labels document hosts := by
  rw [locate_eq_flatMap hordered (not_crowds_of_locate_eq_ok hordered h)] at h
  cases h
  exact found_flatMap hordered hdistinct

/-- The whole document has its label alone for a key if it is a host, so nothing in it is under the
empty key. -/
theorem Found.emptyKey_notMem (h : Found labels document hosts)
    (hroot : Pointer.root ∈ hosts.map place) : Pointer.root.key "" ∉ hosts.map place := by
  intro hempty
  obtain ⟨host, hhost, hplace⟩ := List.mem_map.mp hroot
  obtain ⟨inner, hinner, hplace'⟩ := List.mem_map.mp hempty
  obtain ⟨value, hresolve, -⟩ := h.specification host hhost
  obtain ⟨value', hresolve', -⟩ := h.specification inner hinner
  rw [hplace] at hresolve
  rw [hplace'] at hresolve'
  cases Option.some.inj hresolve
  have hlookup : [(host.label.key, value)].lookup "" = none := by
    cases host.label <;> rfl
  rw [Pointer.key, Pointer.root, List.nil_append, Pointer.resolve?, hlookup] at hresolve'
  cases hresolve'

/-- The specifications of different hosts are at different places. -/
theorem Found.nodup_specificationPlace (h : Found labels document hosts) :
    (hosts.map specificationPlace).Nodup := by
  have hplaces : (hosts.map specificationPlace).map List.dropLast = hosts.map place := by
    rw [List.map_map]
    exact List.map_congr_left fun host _ => List.dropLast_concat
  exact List.Nodup.of_map List.dropLast (hplaces ▸ h.nodup)

/-- Hosts are told apart by the texts of their places. -/
theorem Found.nodup_text (h : Found labels document hosts) :
    (hosts.map fun host => host.place.text).Nodup := by
  refine Pointer.nodup_map_text document h.nodup (fun host hhost => ?_) h.emptyKey_notMem
  obtain ⟨value, hplace, -⟩ := h.specification host hhost
  exact ⟨_, hplace⟩

/-- Hosts are told apart by the texts of the places of their specifications. -/
theorem Found.nodup_specificationText (h : Found labels document hosts) :
    (hosts.map fun host => host.specificationPlace.text).Nodup := by
  have hroot : Pointer.root ∉ hosts.map specificationPlace := by
    intro hmem
    obtain ⟨host, -, hplace⟩ := List.mem_map.mp hmem
    exact List.append_ne_nil_of_right_ne_nil _ (List.cons_ne_nil _ _) hplace
  refine Pointer.nodup_map_text document h.nodup_specificationPlace
    (fun host hhost => ?_) fun hmem => absurd hmem hroot
  obtain ⟨value, -, hspecification⟩ := h.specification host hhost
  exact ⟨value, hspecification⟩

end Host

namespace Document

/-- **Texts name places.** Different places of a document have different texts, except that the
whole document and the member of it that has the empty key both read as a slash. So the hosts that a
search for distinct labels finds are told apart by the texts of their places, and by those of the
places of their specifications. -/
theorem text_names_place (document : Json) :
    (∀ (p q : Pointer) (part part' : Json), p.resolve? document = some part →
      q.resolve? document = some part' → p ≠ q →
        (p.text = q.text ↔ p = Pointer.root ∧ q = Pointer.root.key "" ∨
          p = Pointer.root.key "" ∧ q = Pointer.root)) ∧
      Pointer.root.text = "/" ∧ (Pointer.root.key "").text = "/" ∧
      ∀ (labels : List Label) (hosts : List Host), document.IsOrdered → labels.Nodup →
        Host.locate labels document = .ok hosts →
          (hosts.map fun host => host.place.text).Nodup ∧
          (hosts.map fun host => host.specificationPlace.text).Nodup := by
  refine ⟨fun p q part part' hp hq hne => ?_, rfl, rfl, fun labels hosts hordered hdistinct h => ?_⟩
  · rw [Pointer.text_eq_text_iff hp hq, or_iff_right hne]
  · have hfound := Host.found_of_locate_eq_ok hordered hdistinct h
    exact ⟨hfound.nodup_text, hfound.nodup_specificationText⟩

/-- A document with hosts under the empty key and under two keys that look alike once one of them is
escaped. -/
def escapedKeys : Json :=
  .object [("", .object [("join_set", .null)]), ("a/b", .object [("join_sequence", .null)]),
    ("a~1b", .array [.object [("join_set", .null)]])]

/-- The hosts in it. -/
def escapedHosts : List Host :=
  [⟨.joinSet, [.key ""]⟩, ⟨.joinSequence, [.key "a/b"]⟩, ⟨.joinSet, [.key "a~1b", .index 0]⟩]

/-- The host under the empty key reads as the whole document, which is no host. The two other keys
have different texts. -/
theorem text_names_place_escapedKeys :
    escapedKeys.IsOrdered ∧ Label.all.Nodup ∧ Host.locate Label.all escapedKeys = .ok escapedHosts ∧
      (escapedHosts.map fun host => host.place.text).Nodup ∧
      (escapedHosts.map fun host => host.specificationPlace.text).Nodup ∧
      Pointer.root.text = Pointer.text [.key ""] ∧
      Pointer.text [.key "a/b"] ≠ Pointer.text [.key "a~1b"] := by
  have hordered : escapedKeys.IsOrdered := by decide +kernel
  have hdistinct : Label.all.Nodup := by decide
  have hlocate : Host.locate Label.all escapedKeys = .ok escapedHosts := by decide +kernel
  obtain ⟨htexts, -, -, hhosts⟩ := text_names_place escapedKeys
  obtain ⟨hplaces, hspecifications⟩ := hhosts Label.all escapedHosts hordered hdistinct hlocate
  refine ⟨hordered, hdistinct, hlocate, hplaces, hspecifications, ?_, ?_⟩
  · exact (htexts Pointer.root [.key ""] _ _ rfl rfl (by decide)).mpr (.inl ⟨rfl, rfl⟩)
  · exact mt (htexts [.key "a/b"] [.key "a~1b"] _ _ rfl rfl (by decide)).mp (by decide)

end Document

end Semijoin
