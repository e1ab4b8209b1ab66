import ApiScribe.Web.Address

/-! Status codes of web replies and what is said of those that do not mean success. -/
namespace ApiScribe
namespace Status

/-- The usual phrases for codes. -/
def phrases : List (Nat × String) :=
  [(100, "Continue"), (101, "Switching Protocols"), (102, "Processing"), (103, "Early Hints"),
   (200, "OK"), (201, "Created"), (202, "Accepted"), (203, "Non-Authoritative Information"),
   (204, "No Content"), (205, "Reset Content"), (206, "Partial Content"), (207, "Multi-Status"),
   (208, "Already Reported"), (226, "IM Used"),
   (300, "Multiple Choices"), (301, "Moved Permanently"), (302, "Found"), (303, "See Other"),
   (304, "Not Modified"), (305, "Use Proxy"), (307, "Temporary Redirect"),
   (308, "Permanent Redirect"),
   (400, "Bad Request"), (401, "Unauthorized"), (402, "Payment Required"), (403, "Forbidden"),
   (404, "Not Found"), (405, "Method Not Allowed"), (406, "Not Acceptable"),
   (407, "Proxy Authentication Required"), (408, "Request Timeout"), (409, "Conflict"),
   (410, "Gone"), (411, "Length Required"), (412, "Precondition Failed"),
   (413, "Request Entity Too Large"), (414, "Request-URI Too Long"),
   (415, "Unsupported Media Type"), (416, "Requested Range Not Satisfiable"),
   (417, "Expectation Failed"), (418, "I'm a teapot"), (421, "Misdirected Request"),
   (422, "Unprocessable Entity"), (423, "Locked"), (424, "Failed Dependency"), (425, "Too Early"),
   (426, "Upgrade Required"), (428, "Precondition Required"), (429, "Too Many Requests"),
   (431, "Request Header Fields Too Large"), (451, "Unavailable For Legal Reasons"),
   (500, "Internal Server Error"), (501, "Not Implemented"), (502, "Bad Gateway"),
   (503, "Service Unavailable"), (504, "Gateway Timeout"), (505, "HTTP Version Not Supported"),
   (506, "Variant Also Negotiates"), (507, "Insufficient Storage"), (508, "Loop Detected"),
   (510, "Not Extended"), (511, "Network Authentication Required")]

/-- The usual phrase for a code, empty if there is none. -/
def phrase (code : Nat) : String := (phrases.lookup code).getD ""

/-- Whether a code means success. -/
def isSuccess (code : Nat) : Bool := code / 100 = 2

/-- Whether a code sends the reader on to the place that the reply names. -/
def isRedirect (code : Nat) : Bool := [301, 302, 303, 307, 308].contains code

/-- How a class of codes is called. -/
def className (code : Nat) : String :=
  match code / 100 with
  | 1 => "Informational response"
  | 3 => "Redirect response"
  | 4 => "Client error"
  | 5 => "Server error"
  | _ => "Invalid status code"

/-- Where a code is explained. -/
def guide (code : Nat) : Address :=
  { scheme := "https", host := "developer.mozilla.org"
    path := "/en-US/docs/Web/HTTP/Status/" ++ toString code }

/-- What is said of a reply that does not mean success. -/
def complaint (code : Nat) (url : String) : String :=
  className code ++ " '" ++ toString code ++ " " ++ phrase code ++ "' for url '" ++ url
    ++ "'\nFor more information check: " ++ (guide code).text

end Status
end ApiScribe
