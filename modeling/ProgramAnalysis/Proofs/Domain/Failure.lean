import ProgramAnalysis.Proofs.Domain.History

/-!
What a domain holds after it could not be loaded. Loading clears it and adds one element for each
line. If a line is faulty the elements before it stay, and they make the domain count as filled.
-/

namespace ProgramAnalysis.Domain

open List

variable {kind : ElementKind} {domain after : Domain kind} {fault : Fault}

section Load

variable {disk : Disk} {dir : String}

theorem load_of_absent (absent : disk.holds (Path.join dir (mapName domain.name)) = false) :
    load dir disk domain = .error (.domainNotReady domain.name) domain := by
  show (if !disk.holds (Path.join dir (mapName domain.name)) then _ else _ :
    Step (Domain kind) Unit) domain = _
  rw [absent]
  rfl

theorem load_of_unreadable (held : disk.holds (Path.join dir (mapName domain.name)) = true)
    (unread : disk.read (Path.join dir (mapName domain.name)) = .error fault) :
    load dir disk domain = .error fault domain.clear := by
  show (if !disk.holds (Path.join dir (mapName domain.name)) then _ else _ :
    Step (Domain kind) Unit) domain = _
  rw [held, unread]
  rfl

end Load

/-- Loading fails in three ways. There may be no file, which leaves the domain as it was; there may
be something that cannot be read, which clears it; or some line may be faulty. Then the domain has
the elements of the lines before this one, and it is ready exactly if there are any. -/
theorem failed_load_iff {kind : ElementKind} (domain after : Domain kind) (dir : String)
    (disk : Disk) (fault : Fault) :
    load dir disk domain = .error fault after ↔
      (disk.holds (Path.join dir (mapName domain.name)) = false ∧
        fault = .domainNotReady domain.name ∧ after = domain) ∨
      (disk.holds (Path.join dir (mapName domain.name)) = true ∧
        disk.read (Path.join dir (mapName domain.name)) = .error fault ∧ after = domain.clear) ∨
      ∃ (content : Content) (read : List String) (bad : Option String)
          (rest : List (Option String)) (elements : List kind.Elem),
        disk.read (Path.join dir (mapName domain.name)) = .ok content ∧
        content.lines = read.map some ++ bad :: rest ∧
        read.mapM kind.decode = .ok elements ∧ elements.Nodup ∧
        Faulty domain.name elements bad fault ∧
        after = { name := domain.name, elements, filled := !elements.isEmpty } := by
  have dense : domain.clear.Dense := dense_new
  constructor
  · intro stopped
    cases held : disk.holds (Path.join dir (mapName domain.name)) with
    | false =>
      rw [load_of_absent held] at stopped
      cases stopped
      exact Or.inl ⟨rfl, rfl, rfl⟩
    | true =>
      cases found : disk.read (Path.join dir (mapName domain.name)) with
      | error unread =>
        rw [load_of_unreadable held found] at stopped
        cases stopped
        exact Or.inr (Or.inl ⟨rfl, rfl, rfl⟩)
      | ok content =>
        rw [load_of_read found] at stopped
        obtain ⟨read, elements, decoded, distinct, lines | ⟨bad, rest, _, lines, faulty⟩⟩ :=
          read_or_faulty domain.name content.lines dense.distinct
        · rw [(readLines_eq_ok dense).mpr ⟨read, elements, lines, decoded, distinct, rfl⟩]
            at stopped
          cases stopped
        · rw [lines, readLines_append decoded distinct,
            readLines_of_faulty (dense.extend distinct) faulty] at stopped
          cases stopped
          exact Or.inr (Or.inr ⟨content, read, bad, rest, elements, rfl, lines, decoded, distinct,
            faulty, rfl⟩)
  · rintro (⟨absent, rfl, rfl⟩ | ⟨held, unread, rfl⟩ |
      ⟨content, read, bad, rest, elements, found, lines, decoded, distinct, faulty, rfl⟩)
    · exact load_of_absent absent
    · exact load_of_unreadable held unread
    · have taken : (domain.clear.elements ++ elements).Nodup := distinct
      rw [load_of_read found, lines, readLines_append decoded taken]
      exact readLines_of_faulty (dense.extend taken) faulty

/-- A file of methods with a faulty second line. -/
def faultyMethods : Disk :=
  ⟨⟨[(["work"], .folder), (["work", "M.map"], .file (.text "5\nx\n6\n"))]⟩⟩

/-- A domain that was never filled counts as filled after it could not be loaded: it answers that it
has no second element and that the method of the third line is none of its elements. -/
theorem half_loaded :
    ∃ after : Domain .method,
      load "work" faultyMethods { name := "M" } = .error (.numeral .invalidDigit) after ∧
      after ≠ { name := "M" } ∧ after.filled = true ∧
      after.element 1 = .error (.noElement "M" 1) ∧ after.indexOf (6 : Nat) = .ok none := by
  refine ⟨{ name := "M", elements := [(5 : Nat)], filled := true }, ?_, ?_, ?_, ?_, ?_⟩
  · rfl
  · decide
  · rfl
  · rfl
  · rfl

end ProgramAnalysis.Domain
