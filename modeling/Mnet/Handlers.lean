/-
  Mnet.Handlers

  The built-in page of `mnet_handlers.c` that an application without routes
  serves.
-/

import Mnet.Response

namespace Mnet

def welcomeHtml : Bytes :=
  ascii ("<!DOCTYPE html>\n" ++
    "<html>\n" ++
    "<head><title>mnet Server</title></head>\n" ++
    "<body>\n" ++
    "<h1>Congratulations!</h1>\n" ++
    "<p>You successfully started the mnet server.</p>\n" ++
    "<p>Go to <a href=\"https://github.com/mnet-web/mnet/blob/main/README.md\">\n" ++
    "README.md</a> for more information about MNET.</p>\n" ++
    "<p>Go to <a href=\"https://github.com/mnet-web/mnet/blob/main/docs/clib.md\">\n" ++
    "clib.md</a> for further setup.</p>\n" ++
    "<p>Development state: %s</p>\n" ++
    "<p>Reported https state: %s (display only, TLS is not implemented)</p>\n" ++
    "<p>Listening port: %d</p>\n" ++
    "<p>Debug mode: %s</p>\n" ++
    "<p>Worker count: %d</p>\n" ++
    "<p>Max connections: %d</p>\n" ++
    "<p>Timeout: %d seconds</p>\n" ++
    "<p>Keep-alive timeout: %d seconds</p>\n" ++
    "<p>Max body size: %zu bytes</p>\n" ++
    "<p>Routes defined: %zu</p>\n" ++
    "<p>Build time: %s</p>\n" ++
    "<p>Git commit: <code>%12s</code></p>\n" ++
    "</body>\n" ++
    "</html>")

/-- Put rendered arguments in the place of the directives of a template, each
    of which ends at its conversion character `s`, `d` or `u`. -/
def fillTemplate : Bytes → List Bytes → Bytes
  | [], _ => []
  | c :: template, args =>
      if c = 37 then
        let directive := template.takeWhile fun b => b ≠ 115 && b ≠ 100 && b ≠ 117
        args.headD [] ++ fillTemplate (template.drop (directive.length + 1)) args.tail
      else c :: fillTemplate template args
termination_by template => template.length
decreasing_by
  · simp only [List.length_drop, List.length_cons]
    omega
  · simp

def boolText (b : Bool) : Bytes := if b then ascii "true" else ascii "false"

/-- `welcome_response`. -/
def welcomeResponse (app : MnetApp) (world : World) : MnetResponse :=
  let devState := boolText app.dev
  let httpsState := if app.https then ascii "https" else ascii "http"
  let totalLen := welcomeHtml.length + devState.length + httpsState.length + 512
  let body := clipTo totalLen (fillTemplate welcomeHtml
    [devState, httpsState, decimal app.port, boolText app.debug, decimalInt app.workers,
     decimalInt app.maxConnections, decimalInt app.timeoutSeconds,
     decimalInt app.keepAliveTimeout, decimal app.maxBodySize, decimal app.routes.length,
     world.timeStr, padLeft 12 world.commitHash])
  { status := 200, contentType := some (ascii "text/html"), body := some body,
    bodyLength := body.length }

end Mnet
