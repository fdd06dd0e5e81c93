import Aegis.Lib.OsBelow
import Aegis.Core.Base

/-! The file transport: which locations it takes, and where they lead. -/
namespace Aegis
open Text OsPath

/-- Reads locations as paths relative to a base directory. -/
structure FileTransport where
  base : OsStr

namespace FileTransport

/-- The path of a location, which may not be absolute or have a `..`. -/
def resolve (os : Os) (t : FileTransport) (location : String) : Result OsStr :=
  let rel := utf8 location.toList
  if isAbsolute os rel then
    .error (.system ("file transport: absolute location rejected: " ++ location))
  else if .parentDir ∈ components os rel then
    .error (.system ("file transport: parent-dir escape rejected: " ++ location))
  else .ok (join os t.base rel)

variable {os : Os} {t : FileTransport} {location : String} {path : OsStr}

theorem resolve_eq_ok (h : t.resolve os location = .ok path) :
    isAbsolute os (utf8 location.toList) = false ∧
      .parentDir ∉ components os (utf8 location.toList) ∧
        path = join os t.base (utf8 location.toList) := by
  unfold resolve at h
  dsimp only at h
  split_ifs at h with habs hup
  cases h
  exact ⟨Bool.eq_false_iff.mpr habs, hup, rfl⟩

/-- A location that is taken leads below the base as long as it is relative or repeats the base, and
no unfinished prefix of the base takes it in. -/
theorem resolve_below_iff (h : t.resolve os location = .ok path) :
    Below os t.base path ↔ Stays os t.base (utf8 location.toList) := by
  obtain ⟨habs, hup, rfl⟩ := resolve_eq_ok h
  exact below_join_iff habs hup

theorem resolve_relative :
    Below .windows (ascii "C:\\up") (ascii "C:\\up\\aegis/m.json") ↔
      Stays .windows (ascii "C:\\up") (utf8 "aegis/m.json".toList) :=
  resolve_below_iff (show FileTransport.resolve .windows ⟨ascii "C:\\up"⟩ "aegis/m.json" =
    .ok (ascii "C:\\up\\aegis/m.json") from rfl)

/-- A leading separator is taken for the root of the base's drive. -/
theorem rooted_location_escapes :
    ∃ path, FileTransport.resolve .windows ⟨ascii "C:\\up"⟩ "\\Windows\\x" = .ok path ∧
      ¬ Below .windows (ascii "C:\\up") path := by
  refine ⟨ascii "C:\\Windows\\x", rfl, ?_⟩
  have hbase : names .windows (ascii "C:\\up") = [.normal (ascii "up")] := by decide +kernel
  have hpath : names .windows (ascii "C:\\Windows\\x") =
      [.normal (ascii "Windows"), .normal (ascii "x")] := by decide +kernel
  rintro ⟨-, -, rest, hnames, -⟩
  rw [hbase, hpath] at hnames
  exact absurd (List.cons.inj hnames).1 (by decide)

/-- On Unix every location that is taken leads below the base. -/
theorem resolve_unix (h : t.resolve .unix location = .ok path) : Below .unix t.base path := by
  obtain ⟨habs, hup, rfl⟩ := resolve_eq_ok h
  apply (below_join_iff habs hup).mpr
  refine ⟨fun hopen => hopen.2.2 rfl, .inl ⟨rfl, ?_⟩⟩
  simpa [isAbsolute] using habs

/-- A base that does not begin with two separators has no unfinished prefix. -/
theorem stays_iff (h : ¬ Begins "\\\\" t.base) : Stays .windows t.base (utf8 location.toList) ↔
    prefixOf .windows (utf8 location.toList) = none ∧
        hasRoot .windows (utf8 location.toList) = false ∨
      Repeats .windows t.base (utf8 location.toList) :=
  and_iff_right (not_absorbs_of_not_begins h)

end FileTransport

end Aegis
