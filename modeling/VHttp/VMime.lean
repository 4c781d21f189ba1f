import VHttp.HttpRequest

/-!
# The mime table of vmime.h

The table ends with an entry without extension, which is also the answer for a path without
a dot and for an unknown extension. Extensions are compared as C strings, so an extension
matches as a whole and in its own case.
-/

namespace VHttp

/-- `mime_mapping`. -/
structure MimeMapping where
  extension : Option Bytes
  mimeType : Bytes
  useSendfile : Bool
  deriving DecidableEq

/-- `G_MimeTable`, up to its last entry. -/
def mimeTable : List MimeMapping :=
  [⟨some (ascii ".html"), ascii "text/html; charset=utf-8", false⟩,
    ⟨some (ascii ".htm"), ascii "text/html; charset=utf-8", false⟩,
    ⟨some (ascii ".css"), ascii "text/css", false⟩,
    ⟨some (ascii ".js"), ascii "text/javascript", false⟩,
    ⟨some (ascii ".json"), ascii "application/json", false⟩,
    ⟨some (ascii ".xml"), ascii "application/xml", false⟩,
    ⟨some (ascii ".txt"), ascii "text/plain; charset=utf-8", false⟩,
    ⟨some (ascii ".pdf"), ascii "application/pdf", true⟩,
    ⟨some (ascii ".svg"), ascii "image/svg+xml", true⟩,
    ⟨some (ascii ".png"), ascii "image/png", true⟩,
    ⟨some (ascii ".jpg"), ascii "image/jpeg", true⟩,
    ⟨some (ascii ".jpeg"), ascii "image/jpeg", true⟩,
    ⟨some (ascii ".gif"), ascii "image/gif", true⟩,
    ⟨some (ascii ".webp"), ascii "image/webp", true⟩,
    ⟨some (ascii ".ico"), ascii "image/x-icon", true⟩,
    ⟨some (ascii ".mp4"), ascii "video/mp4", true⟩,
    ⟨some (ascii ".mp3"), ascii "audio/mpeg", true⟩,
    ⟨some (ascii ".wav"), ascii "audio/wav", true⟩,
    ⟨some (ascii ".woff"), ascii "font/woff", true⟩,
    ⟨some (ascii ".woff2"), ascii "font/woff2", true⟩,
    ⟨some (ascii ".ttf"), ascii "font/ttf", true⟩,
    ⟨some (ascii ".otf"), ascii "font/otf", true⟩,
    ⟨some (ascii ".zip"), ascii "application/zip", true⟩,
    ⟨some (ascii ".tar"), ascii "application/x-tar", true⟩,
    ⟨some (ascii ".gz"), ascii "application/gzip", true⟩]

/-- The last entry of `G_MimeTable`. -/
def mimeFallback : MimeMapping := ⟨none, ascii "text/plain", false⟩

/-- `GetMimeType`. -/
def getMimeType : Option Bytes → MimeMapping
  | some extension =>
    (mimeTable.find? (fun entry => decide (entry.extension = some extension))).getD mimeFallback
  | none => mimeFallback

/-- A mime type that can stand in a header line of a response. -/
structure MimeMapping.Printable (mime : MimeMapping) : Prop where
  clean : 0 ∉ mime.mimeType ∧ 10 ∉ mime.mimeType ∧ 13 ∉ mime.mimeType ∧ 37 ∉ mime.mimeType
  visible : ∃ byte ∈ mime.mimeType, isSpace byte = false
  short : mime.mimeType.length ≤ 32

instance (mime : MimeMapping) : Decidable mime.Printable :=
  decidable_of_iff ((0 ∉ mime.mimeType ∧ 10 ∉ mime.mimeType ∧ 13 ∉ mime.mimeType ∧
      37 ∉ mime.mimeType) ∧ (∃ byte ∈ mime.mimeType, isSpace byte = false) ∧
      mime.mimeType.length ≤ 32)
    ⟨fun ⟨clean, visible, short⟩ => ⟨clean, visible, short⟩,
      fun ⟨clean, visible, short⟩ => ⟨clean, visible, short⟩⟩

/-- Whatever the extension, the mime type is printable. -/
theorem getMimeType_printable (extension : Option Bytes) : (getMimeType extension).Printable := by
  have all : ∀ entry ∈ mimeTable, entry.Printable := by decide
  have last : mimeFallback.Printable := by decide
  cases extension with
  | none => exact last
  | some extension =>
    rw [getMimeType]
    cases found : mimeTable.find? (fun entry => decide (entry.extension = some extension)) with
    | none => exact last
    | some entry => exact all entry (List.mem_of_find?_eq_some found)

end VHttp
