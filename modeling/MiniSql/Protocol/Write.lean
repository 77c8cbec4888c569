import MiniSql.Lib.Transfer
import MiniSql.Protocol.Message
import MiniSql.RouterJson.Bodies

/-!
# Writing a response

`http_write_response` prints the header into an array of 512 bytes, and writes the header and the
body. A call of `write` may take less than it is offered.

## Main definitions

* `responseHeader`, `responseText` — the bytes of a response.
* `httpWriteResponse` — what is written of them.

## Main results

* `responseHeader_lt` — which headers fit into the array.
* `httpWriteResponse_spec` — a prefix is written, and everything if the call succeeds.
* `httpWriteResponse_flows` — it succeeds if it is not held up.
-/

namespace MiniSql
open CText

/-- `status_reason`. -/
def statusReason : ℕ → CStr
  | 200 => "OK".toList
  | 400 => "Bad Request".toList
  | 404 => "Not Found".toList
  | 405 => "Method Not Allowed".toList
  | 500 => "Internal Server Error".toList
  | 501 => "Not Implemented".toList
  | _ => "OK".toList

/-- The lines of the header. -/
def responseLines (resp : HttpResponse) : List CStr :=
  ["HTTP/1.1 ".toList ++ intText resp.status ++ ' ' :: statusReason resp.status,
    "Content-Type: ".toList ++ resp.contentType,
    "Content-Length: ".toList ++ intText resp.body.length,
    "Connection: close".toList]

def responseHeader (resp : HttpResponse) : CStr := linesText (responseLines resp) ++ crlf

/-- The bytes of the response. -/
def responseText (resp : HttpResponse) : List Char := responseHeader resp ++ resp.body

/-- `http_write_response`: whether it returns `0`, and what has been written. -/
def httpWriteResponse (events : List WriteEvent) (resp : HttpResponse) : Bool × List Char :=
  match snprintf 512 (responseHeader resp) with
  | none => (false, [])
  | some header =>
    match Transfer.writeAll true events header with
    | (false, sent, _) => (false, sent)
    | (true, sent, events) =>
      if resp.body = [] then (true, sent)
      else
        let (ok, more, _) := Transfer.writeAll true events resp.body
        (ok, sent ++ more)

example : httpWriteResponse [.wrote 60, .interrupted, .wrote 40, .wrote 1, .wrote 1]
      (jsonBody 200 "[]".toList) =
    (true, ("HTTP/1.1 200 OK\r\nContent-Type: application/json\r\nContent-Length: 2\r\n".toList ++
      "Connection: close\r\n\r\n[]".toList)) := by
  decide +kernel

/-! ## The header -/

variable {resp : HttpResponse}

theorem length_statusReason_le (status : ℕ) : (statusReason status).length ≤ 21 := by
  unfold statusReason
  split <;> decide

/-- The header of a response fits into the array, whatever its body is. -/
theorem responseHeader_lt (hstatus : resp.status < 2 ^ 64) (htype : resp.contentType.length ≤ 38)
    (hbody : resp.body.length < 2 ^ 64) : (responseHeader resp).length < 512 := by
  have hdigits := length_intText_le hstatus
  have hlength := length_intText_le hbody
  have hreason := length_statusReason_le resp.status
  simp only [responseHeader, linesText, responseLines, List.flatMap_cons, List.flatMap_nil,
    List.length_append, List.length_cons, List.length_nil, crlf, String.length_toList]
  have hlits : "HTTP/1.1 ".length = 9 ∧ "Content-Type: ".length = 14 ∧
      "Content-Length: ".length = 16 ∧ "Connection: close".length = 17 := by decide
  omega

/-! ## What is written -/

/-- **A prefix of the response is written, and all of it if the call succeeds.** -/
theorem httpWriteResponse_spec (events : List WriteEvent) (resp : HttpResponse) :
    (httpWriteResponse events resp).2 <+: responseText resp ∧
      ((httpWriteResponse events resp).1 = true →
        (httpWriteResponse events resp).2 = responseText resp) := by
  unfold httpWriteResponse
  cases hprint : snprintf 512 (responseHeader resp) with
  | none => exact ⟨List.nil_prefix, fun hok => absurd hok (by simp)⟩
  | some header =>
    obtain rfl : responseHeader resp = header := by
      rw [snprintf] at hprint
      split at hprint
      · exact Option.some.inj hprint
      · exact absurd hprint (by simp)
    have hpre := @Transfer.writeAll_prefix _ true events (responseHeader resp)
    have hall := @Transfer.writeAll_iff _ true events (responseHeader resp)
    dsimp only
    split
    · rename_i sent rest hwrite
      rw [hwrite] at hpre
      exact ⟨hpre.trans (List.prefix_append _ _), fun hok => absurd hok (by simp)⟩
    · rename_i sent rest hwrite
      rw [hwrite] at hall
      obtain rfl : sent = responseHeader resp := hall.mp rfl
      split
      · rename_i hnil
        rw [responseText, hnil, List.append_nil]
        exact ⟨List.prefix_rfl, fun _ => rfl⟩
      · have hpre' := @Transfer.writeAll_prefix _ true rest resp.body
        have hall' := @Transfer.writeAll_iff _ true rest resp.body
        refine ⟨(List.prefix_append_right_inj _).mpr hpre', fun hok => ?_⟩
        exact congrArg (responseHeader resp ++ ·) (hall'.mp hok)

/-- **A response whose header fits is written, if nothing holds it up.** -/
theorem httpWriteResponse_flows {events : List WriteEvent}
    (hheader : (responseHeader resp).length < 512)
    (hflows : Transfer.Flows (responseText resp).length events) :
    httpWriteResponse events resp = (true, responseText resp) := by
  rw [responseText, List.length_append] at hflows
  obtain ⟨rest, hwrite, hflows'⟩ := @Transfer.writeAll_flows _ true _ _ _ hflows
  obtain ⟨rest', hwrite', -⟩ :=
    @Transfer.writeAll_flows _ true rest resp.body 0 (by simpa using hflows')
  rw [httpWriteResponse, snprintf, if_pos hheader]
  dsimp only
  rw [hwrite]
  dsimp only
  rw [hwrite', responseText]
  split
  · rename_i hnil
    rw [hnil, List.append_nil]
  · rfl

end MiniSql
