import CleanWeb.Hub.Api
import CleanWeb.Hub.FingerprintText

/-!
# The hub over HTTP (`services/discovery-hub/src/api.rs`)

The two resolver routes, from the text of a request path to the JSON of the answer.  Path segments
are taken as they stand: the requests that are studied here contain no percent sign.
-/

namespace CleanWeb
namespace Hub

open Lib Lib.Exec

/-! ## JSON -/

inductive Json where
  | null
  | bool (b : Bool)
  | unsigned (n : Nat)
  | float (q : Rat)
  | string (s : String)
  | array (items : List Json)
  | object (fields : List (String × Json))

namespace Json

/-- `Value::get` with a text key. -/
def get (v : Json) (key : String) : Option Json :=
  match v with
  | .object fields => fields.lookup key
  | _ => none

def asStr : Json → Option String
  | .string s => some s
  | _ => none

def asU64 : Json → Option Nat
  | .unsigned n => some n
  | _ => none

end Json

def WorkType.toJson : WorkType → Json
  | .audio => .string "audio"
  | .video => .string "video"
  | .text => .string "text"

def Resolved.toJson (r : Resolved) : Json :=
  .object
    [("work_id", .string (Bytes32.display Hex.codec r.workId)),
      ("price_per_min", .unsigned r.pricePerMin),
      ("region", .string (Bytes32.display Hex.codec r.region)),
      ("work_type", r.workType.toJson)]

def Summary.toJson (s : Summary) : Json :=
  .object
    [("work_id", .string (Bytes32.display Hex.codec s.workId)),
      ("fingerprint", .string s.fingerprint),
      ("title", .string s.title),
      ("work_type", s.workType.toJson),
      ("tags", .array (s.tags.map .string)),
      ("price_per_min", .unsigned s.pricePerMin)]

/-! ## Handlers -/

inductive Reply where
  | ok (body : Json)
  | badRequest (message : String)
  | notFound (message : String)

/-- `GET /resolve/content/{content_id}`. -/
def resolveContentHandler (idx : Index) (contentId : String) : Reply :=
  match Bytes32.fromStr Hex.codec contentId with
  | .error _ => .badRequest "bad content id"
  | .ok contentId =>
      match idx.resolveContent contentId with
      | some r => .ok r.toJson
      | none => .notFound "content id not found"

/-- The double nearest to 0.85. -/
def fpMatchThreshold : F64 :=
  .finite (7656119366529843 / 9007199254740992)

/-- `GET /resolve/fingerprint/{fp}?threshold=`; a panic of the parser does not occur. -/
def resolveFingerprintHandler (idx : Index) (fp : String) (threshold : Option F64) : Reply :=
  match Fingerprint.parse fp with
  | .error (.err e) => .badRequest e.display
  | .error .panic => .badRequest ""
  | .ok fp =>
      match idx.nearestFingerprint fp (threshold.getD fpMatchThreshold) with
      | some (candidate, similarity) =>
          .ok (.object [("candidate", candidate.toJson), ("similarity", .float similarity)])
      | none => .notFound "no fingerprint match above threshold"

/-- The router on a path without a query. -/
def serveGet (idx : Index) (path : List Char) : Reply :=
  match path.splitOn '/' with
  | [[], group, kind, segment] =>
      if group = "resolve".toList ∧ kind = "content".toList then
        resolveContentHandler idx (String.ofList segment)
      else if group = "resolve".toList ∧ kind = "fingerprint".toList then
        resolveFingerprintHandler idx (String.ofList segment) none
      else .notFound ""
  | _ => .notFound ""

/-! ## Requests as clients write them -/

/-- A path of three segments is taken apart again. -/
theorem splitOn_path {group kind segment : List Char} (hgroup : '/' ∉ group) (hkind : '/' ∉ kind)
    (hsegment : '/' ∉ segment) :
    ('/' :: group ++ '/' :: kind ++ '/' :: segment).splitOn '/' = [[], group, kind, segment] := by
  have hjoin : ['/'].intercalate [[], group, kind, segment] =
      '/' :: group ++ '/' :: kind ++ '/' :: segment := by
    simp [List.intercalate]
  rw [← hjoin]
  refine List.splitOn_intercalate '/' ?_ (by simp)
  intro l hl
  simp only [List.mem_cons, List.not_mem_nil, or_false] at hl
  rcases hl with rfl | rfl | rfl | rfl
  · simp
  · exact hgroup
  · exact hkind
  · exact hsegment

/-- No hex digit is a slash. -/
theorem slash_not_mem_encodeChars (bs : List UInt8) : '/' ∉ Hex.encodeChars bs := by
  have hdigit : ∀ n < 16, Hex.digit n ≠ '/' := by
    decide
  induction bs with
  | nil =>
      exact List.not_mem_nil
  | cons b bs ih =>
      have hb : b.toNat < 256 := b.toNat_lt
      simp only [Hex.encodeChars, List.mem_cons, not_or]
      exact ⟨(hdigit _ (by omega)).symm, (hdigit _ (by omega)).symm, ih⟩

theorem toList_displayBytes32 (b : Bytes32) :
    (Bytes32.display Hex.codec b).toList = '0' :: 'x' :: Hex.encodeChars (Bytes32.bytes b) := by
  simp [Bytes32.display, Hex.codec]

/-- Asking for a content id that was printed is looking it up. -/
theorem serveGet_content (idx : Index) (contentId : Bytes32) :
    serveGet idx ("/resolve/content/".toList ++ (Bytes32.display Hex.codec contentId).toList) =
      match idx.resolveContent contentId with
      | some r => .ok r.toJson
      | none => .notFound "content id not found" := by
  have hsegment : '/' ∉ (Bytes32.display Hex.codec contentId).toList := by
    rw [toList_displayBytes32]
    simp [slash_not_mem_encodeChars]
  have hpath : "/resolve/content/".toList ++ (Bytes32.display Hex.codec contentId).toList =
      '/' :: "resolve".toList ++ '/' :: "content".toList ++
        '/' :: (Bytes32.display Hex.codec contentId).toList := by
    simp
  rw [serveGet, hpath, splitOn_path (by simp) (by simp) hsegment]
  simp [resolveContentHandler, Bytes32.fromStr_display]

/-- Asking for a fingerprint that was printed is searching for it. -/
theorem serveGet_fingerprint (idx : Index) (fp : Fingerprint) :
    serveGet idx ("/resolve/fingerprint/".toList ++ fp.display.toList) =
      match idx.nearestFingerprint fp fpMatchThreshold with
      | some (candidate, similarity) =>
          .ok (.object [("candidate", candidate.toJson), ("similarity", .float similarity)])
      | none => .notFound "no fingerprint match above threshold" := by
  have hsegment : '/' ∉ fp.display.toList := by
    rw [Fingerprint.toList_display]
    simp [slash_not_mem_encodeChars]
  have hpath : "/resolve/fingerprint/".toList ++ fp.display.toList =
      '/' :: "resolve".toList ++ '/' :: "fingerprint".toList ++ '/' :: fp.display.toList := by
    simp
  rw [serveGet, hpath, splitOn_path (by simp) (by simp) hsegment]
  simp [resolveFingerprintHandler, Fingerprint.parse_display]

end Hub
end CleanWeb
